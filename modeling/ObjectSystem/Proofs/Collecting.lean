import Mathlib
import ObjectSystem.Proofs.Emissions
import ObjectSystem.Proofs.LifeCycle
import ObjectSystem.Proofs.Pending
import ObjectSystem.Proofs.Tasks

/-!
# What an iteration takes over

An iteration takes over work at two moments. Its pass takes the tasks that the context holds when the
iteration begins, and the sources are collected when the pass is over. Work that is added later waits
for another iteration: a task that is spawned while the iteration is in progress is never polled by
its pass, and a source that is attached while sources are dispatched is never among them.

Between the two moments there is a gap. A source that a task of the pass attaches is there when the
sources are collected, and the same iteration dispatches it (`dispatched_while_attaching`). Only an
iteration that finds no task to poll collects just the sources that it began with.

`Polling` and `Dispatching` are the two halves of an iteration, and `Machine.lineup` says which
sources had their turns in it: `iterations_take_over` is the contract.
-/

namespace ObjectSystem

variable {σ β κ : Type}

open Machine (Reachable marks Manned)

/-! ## What an iteration does -/

namespace Machine

/-- The pass of the iteration on some layers polls a task. -/
def Polls (m : Machine σ β κ) (c : ContextId) (base : List (Layer β κ)) (id : TaskId) : Prop :=
  ∃ above p, m.stack = above ++ .operation (.pass p) :: .operation (.collect c true) :: base ∧
    p.current = some id

/-- The iteration on some layers collects its sources with the next step. -/
def Collects (m : Machine σ β κ) (c : ContextId) (base : List (Layer β κ)) : Prop :=
  (∃ polled, m.stack = .operation (.collect c polled) :: base) ∧
    ∃ reply, m.control = .deliver reply

/-- The source that has its turn in the iteration at a height. -/
def upNext? (m : Machine σ β κ) (height : Nat) : Option SourceId :=
  match m.control, m.stack with
  | .deliver _, .operation (.iteration _ (id :: _) _) :: stack =>
    if stack.length = height then some id else none
  | _, _ => none

/-- The sources that had their turns in the iteration at a height within so many steps, in order. -/
def lineup (client : Client σ β κ) (m : Machine σ β κ) (height n : Nat) : List SourceId :=
  (List.range n).filterMap fun i => (m.after client i).upNext? height

/-- The iteration at a height has a source start with the next step. -/
def Dispatches (client : Client σ β κ) (m : Machine σ β κ) (height : Nat) (c : ContextId)
    (id : SourceId) : Prop :=
  m.stack.length = height + 1 ∧ m.StartsWork client c id

end Machine

/-- The first half of an iteration of a context on some layers: its pass, which took the tasks that
the context had, and the moment after it. -/
inductive Polling (c : ContextId) (base : List (Layer β κ)) (x : MainContext β)
    (m : Machine σ β κ) : Prop
  /-- The pass is in progress, and its set has none but the tasks that it took. -/
  | polls (above : List (Layer β κ)) (f : Frame β) (p : Pass)
      (hs : m.stack = above ++ .operation f :: .operation (.collect c true) :: base)
      (hf : f.pass? = some p) (hc : p.context = c) (hready : x.tasksReady = true)
      (hset : ∀ ids, (m.world.roster c).passes.reverse[(base.filterMap (Layer.pass? c)).length]? =
        some ids → ids ⊆ (x.tasks.tasks ++ x.spawned).map (·.id))
  /-- The sources are about to be collected. -/
  | looks (h : m.Collects c base)
      (hready : x.tasksReady = false → m.world.timetable? c = some x.timetable)

/-- The second half: some of the collected sources are still to have their turns. -/
inductive Dispatching (c : ContextId) (base : List (Layer β κ)) (rest : List SourceId)
    (m : Machine σ β κ) : Prop
  /-- The next source has its turn; without one, the iteration ends. -/
  | turns (worked : Bool) (reply : Reply β)
      (hs : m.stack = .operation (.iteration c rest worked) :: base)
      (hm : m.control = .deliver reply)
  /-- A source works. -/
  | runs (above : List (Layer β κ)) (id : SourceId) (mayStay worked : Bool)
      (hs : m.stack = above ++ .operation (.sourceEnd c id mayStay) ::
        .operation (.iteration c rest worked) :: base)

/-! ## Passes -/

/-- A pass goes on in its place, or it is over and whoever waits for it hears so. -/
def Pass.Continues (p : Pass) (q : Progress β) : Prop :=
  (∃ f p', q.frames = [f] ∧ f.pass? = some p' ∧ p'.context = p.context) ∨
    q.frames = [] ∧ ∃ reply, q.control = .deliver reply

namespace Pass

variable (p : Pass) (w : World β)

theorem continues_finish : p.Continues (p.finish w) := by
  unfold finish
  split
  · exact .inr ⟨rfl, _, rfl⟩
  · exact .inl ⟨_, p, rfl, rfl, rfl⟩

theorem continues_pollNext : p.Continues (p.pollNext w) := by
  unfold pollNext
  split
  · exact .inr ⟨rfl, _, rfl⟩
  · next x _ =>
      dsimp only
      split
      · exact continues_finish p _
      · next task _ =>
          split
          · exact .inl ⟨_, { p with current := some task.id }, rfl, rfl, rfl⟩
          · split <;> exact .inl ⟨_, { p with current := some task.id }, rfl, rfl, rfl⟩

theorem continues_beginRound : p.Continues (p.beginRound w) := by
  unfold beginRound
  exact continues_pollNext _ _

theorem continues_taskWaits : p.Continues (p.taskWaits w) := by
  unfold taskWaits
  dsimp only
  split
  · exact continues_finish _ _
  · exact continues_pollNext _ _

theorem continues_taskFinished (outcome : Outcome β) : p.Continues (p.taskFinished w outcome) := by
  unfold taskFinished
  split
  · exact continues_beginRound p w
  · exact .inl ⟨_, { p with finished := p.finished + 1, current := none }, rfl, rfl, rfl⟩

theorem continues_resume {f : Frame β} {p : Pass} (hf : f.pass? = some p) (w : World β)
    (reply : Reply β) : p.Continues (f.resume w reply) := by
  cases f with
  | pass p' =>
      cases hf
      cases reply with
      | returned outcome => exact continues_taskFinished p w outcome
      | suspended => exact continues_taskWaits p w
      | _ => exact continues_beginRound p w
  | finishPass p' =>
      cases hf
      exact continues_finish p w
  | _ => cases hf

end Pass

/-- Counted from the end, an element in front of others comes last. -/
theorem getElem?_reverse_cons {α : Type} {a b : α} {as : List α} {q : Nat} :
    (a :: as).reverse[q]? = some b ↔ as.reverse[q]? = some b ∨ as.length = q ∧ a = b := by
  rw [List.reverse_cons]
  rcases Nat.lt_trichotomy q as.length with hlt | rfl | hgt
  · rw [List.getElem?_append_left (by simpa using hlt)]
    exact ⟨.inl, fun h => h.resolve_right fun hq => Nat.ne_of_gt hlt hq.1⟩
  · have hend : as.reverse[as.length]? = none := List.getElem?_eq_none (by simp)
    rw [List.getElem?_append_right (by simp), hend]
    simp
  · rw [List.getElem?_eq_none (by simp; omega), List.getElem?_eq_none (by simp; omega)]
    exact iff_of_false nofun fun h => h.elim nofun fun hq => Nat.ne_of_lt hgt hq.1

/-- The set of a pass only loses tasks; a pass that begins takes all that the context holds. -/
theorem Shift.set_of_set {m m' : Machine σ β κ} {c : ContextId} (h : Shift m m' c) {q : Nat}
    {ids' : List TaskId} (hq : (m'.world.roster c).passes.reverse[q]? = some ids') :
    (∃ ids, (m.world.roster c).passes.reverse[q]? = some ids ∧ ids' ⊆ ids) ∨
      (m.world.roster c).passes.length = q := by
  -- the set of the innermost pass is replaced
  have replaced {ids ids'' : List TaskId} {rest : List (List TaskId)}
      (hrest : (m.world.roster c).passes = ids :: rest)
      (hr : (m'.world.roster c).passes = ids'' :: rest) (hsub : ids'' ⊆ ids) :
      ∃ ids, (m.world.roster c).passes.reverse[q]? = some ids ∧ ids' ⊆ ids := by
    rw [hr, getElem?_reverse_cons] at hq
    rw [hrest]
    rcases hq with hq | ⟨hlast, rfl⟩
    · exact ⟨ids', getElem?_reverse_cons.mpr (.inl hq), List.Subset.refl _⟩
    · exact ⟨ids, getElem?_reverse_cons.mpr (.inr ⟨hlast, rfl⟩), hsub⟩
  cases h with
  | still hr hp hdone hdiscards => exact .inl ⟨ids', hr ▸ hq, List.Subset.refl _⟩
  | spawns hr hp hdone hdiscards => exact .inl ⟨ids', by rw [hr] at hq; exact hq, List.Subset.refl _⟩
  | begins hr hp hdone hdiscards =>
      rw [hr] at hq
      change (_ :: (m.world.roster c).passes).reverse[q]? = _ at hq
      exact (getElem?_reverse_cons.mp hq).imp (fun hq => ⟨ids', hq, List.Subset.refl _⟩) (·.1)
  | polls p p' ps ids ids'' rest hp hrest hids hr hp' hfinished hcurrent hdone hdiscards =>
      exact .inl (replaced hrest (by rw [hr]) hids.subset)
  | completes p ps ids rest id hp hrest hcurrent hr hp' hdone hdiscards =>
      exact .inl (replaced hrest (by rw [hr]) (List.filter_subset_self _))
  | discards p p' ps ids ids'' rest id hp hrest hids hlast hr hp' hfinished hcurrent hdone
      hdiscards =>
      exact .inl (replaced hrest (by rw [hr]) hids.subset)
  | ends p ps ids ids'' rest hp hrest hids htasks hr hp' hdone hdiscards =>
      rw [hr] at hq
      change rest.reverse[q]? = _ at hq
      refine .inl ⟨ids', ?_, List.Subset.refl _⟩
      rw [hrest]
      exact getElem?_reverse_cons.mpr (.inl hq)

/-! ## What the stack tells -/

section

variable {client : Client σ β κ} {m : Machine σ β κ} {c : ContextId} {base : List (Layer β κ)}
  {x : MainContext β} {id : SourceId} {rest : List SourceId}

/-- One layer stands directly on the lower part of a stack. -/
theorem layer_unique (above above' : List (Layer β κ)) {base : List (Layer β κ)}
    {layer layer' : Layer β κ} (h : above ++ layer :: base = above' ++ layer' :: base) :
    above = above' ∧ layer = layer' := by
  rw [List.append_cons, List.append_cons above'] at h
  obtain ⟨habove, hlayer⟩ := List.append_inj' (List.append_cancel_right h) rfl
  exact ⟨habove, List.singleton_inj.mp hlayer⟩

theorem Machine.upNext?_eq_some : m.upNext? base.length = some id ↔
    (∃ reply, m.control = .deliver reply) ∧ ∃ d ready worked stack,
      m.stack = .operation (.iteration d (id :: ready) worked) :: stack ∧
        stack.length = base.length := by
  unfold upNext?
  constructor
  · intro h
    split at h
    · next reply d id' ready worked stack hm hs =>
        split at h
        · next hlength =>
            cases h
            exact ⟨⟨reply, hm⟩, d, ready, worked, stack, hs, hlength⟩
        · cases h
    · cases h
  · rintro ⟨⟨reply, hm⟩, d, ready, worked, stack, hs, hlength⟩
    rw [hm, hs]
    exact if_pos hlength

/-- No source has its turn with something on top of the layer that stands on the base. -/
theorem Machine.upNext?_of_above {above : List (Layer β κ)} {layer layer' : Layer β κ}
    (hs : m.stack = above ++ layer :: layer' :: base) : m.upNext? base.length = none := by
  cases hnext : m.upNext? base.length with
  | none => rfl
  | some id =>
      obtain ⟨-, d, ready, worked, stack, hs', hlength⟩ := upNext?_eq_some.mp hnext
      have hheight := congrArg List.length (hs.symm.trans hs')
      simp only [List.length_append, List.length_cons] at hheight
      omega

/-- Nor with another layer on the base than that of an iteration with sources left. -/
theorem Machine.upNext?_of_top {layer : Layer β κ} (hs : m.stack = layer :: base)
    (hlayer : ∀ d id ready worked, layer ≠ .operation (.iteration d (id :: ready) worked)) :
    m.upNext? base.length = none := by
  cases hnext : m.upNext? base.length with
  | none => rfl
  | some id =>
      obtain ⟨-, d, ready, worked, stack, hs', -⟩ := upNext?_eq_some.mp hnext
      obtain ⟨rfl, -⟩ := List.cons.inj (hs.symm.trans hs')
      exact absurd rfl (hlayer d id ready worked)

/-! ## The first half -/

/-- An iteration that is asked for begins with a pass, or looks for its sources at once. -/
theorem Polling.of_iterate (hreach : Reachable client m) (hm : m.control = .perform (.iterate c))
    (hx : m.world.context? c = some x) : Polling c m.stack x (m.step client) := by
  have hf := Machine.follows_perform client hm
  change (m.step client).Follows (m.world.iterate c) m.stack at hf
  unfold World.iterate at hf
  rw [hx] at hf
  dsimp only at hf
  split at hf
  · next y hy =>
      refine .polls [] (.pass { context := c }) { context := c } hf.stack rfl rfl ?_ fun ids hids => ?_
      · unfold MainContext.beginPass at hy
        split at hy
        · assumption
        · cases hy
      · have hroster := (hf.world.roster_eq c).trans (World.reroster_setContext hx y).here
        have hlength : m.stack.filterMap (Layer.pass? c) = m.passes c := rfl
        rw [hroster, MainContext.roster_beginPass hy, hlength,
          (hreach.orderly.2 c).length_eq, World.roster_eq hx] at hids
        change ((x.roster.tasks ++ x.roster.spawned) ::
          x.roster.passes).reverse[x.roster.passes.length]? = _ at hids
        rcases getElem?_reverse_cons.mp hids with hids | ⟨-, hids⟩
        · rw [List.getElem?_eq_none (by simp)] at hids
          cases hids
        · rw [← hids, List.map_append]
          exact List.Subset.refl _
  · refine .looks ⟨⟨false, hf.stack⟩, _, hf.control⟩ fun _ => ?_
    exact (hf.world.timetable c).trans (World.timetable?_eq hx)

/-- The pass goes on, or it is over and the sources are collected. -/
theorem Polling.step (hreach : Reachable client m) (h : Polling c base x m)
    (hexists : m.world.timetable? c ≠ none) :
    Polling c base x (m.step client) ∨
      m.Collects c base ∧ (x.tasksReady = false → m.world.timetable? c = some x.timetable) ∧
        ∃ t, m.world.timetable? c = some t ∧ Dispatching c base t.ready (m.step client) := by
  cases h with
  | looks h hready =>
      obtain ⟨⟨polled, hs⟩, reply, hm⟩ := h
      refine .inr ⟨⟨⟨polled, hs⟩, reply, hm⟩, hready, ?_⟩
      obtain ⟨y, hy⟩ := World.exists_context hexists
      have hf := Machine.follows_resume client hm hs
      change (m.step client).Follows (m.world.collect c polled) base at hf
      unfold World.collect at hf
      rw [hy] at hf
      exact ⟨_, World.timetable?_eq hy, .turns _ .proceed hf.stack hf.control⟩
  | polls above f p hs hf hc hready hset =>
      -- as long as the pass is in progress, its set only loses tasks
      have goesOn (above' : List (Layer β κ)) {f' : Frame β} {p' : Pass} (hs' : (m.step client).stack =
            above' ++ .operation f' :: .operation (.collect c true) :: base)
          (hf' : f'.pass? = some p') (hc' : p'.context = c) : Polling c base x (m.step client) := by
        refine .polls above' f' p' hs' hf' hc' hready fun ids hids => ?_
        rcases (hreach.shift c).set_of_set hids with ⟨ids', hids', hsub⟩ | hlength
        · exact List.Subset.trans hsub (hset ids' hids')
        · -- the pass that has begun is another one, further up
          have hpass : Layer.pass? (κ := κ) c (.operation f) = some p := by
            simp [Layer.pass?, hf, Option.filter, hc]
          have hmanned := (hreach.orderly.2 c).length_eq
          unfold Machine.passes at hmanned
          rw [hs, List.filterMap_append, List.filterMap_cons, hpass,
            List.filterMap_cons_none rfl] at hmanned
          simp only [List.length_append, List.length_cons] at hmanned
          omega
      refine .inl ?_
      rcases Machine.stays_or_resumes client hs with ⟨above', hs'⟩ | ⟨reply, -, -, hfollows⟩
      · exact goesOn above' hs' hf hc
      · rcases Pass.continues_resume hf m.world reply with
          ⟨f', p', hframes, hf', hc'⟩ | ⟨hframes, reply', hcontrol⟩
        · refine goesOn [] ?_ hf' (hc'.trans hc)
          rw [hfollows.stack, hframes]
          rfl
        · refine .looks ⟨⟨true, ?_⟩, reply', hfollows.control.trans hcontrol⟩ fun hnone => ?_
          · rw [hfollows.stack, hframes]
            rfl
          · cases hready.symm.trans hnone

theorem Polling.length_lt (h : Polling c base x m) : base.length < m.stack.length := by
  cases h with
  | polls above f p hs hf hc hready hset => simp [hs]; omega
  | looks h hready =>
      obtain ⟨⟨polled, hs⟩, -⟩ := h
      simp [hs]

theorem Polling.upNext?_eq_none (h : Polling c base x m) : m.upNext? base.length = none := by
  cases h with
  | polls above f p hs hf hc hready hset =>
      exact Machine.upNext?_of_above hs
  | looks h hready =>
      obtain ⟨⟨polled, hs⟩, -⟩ := h
      exact Machine.upNext?_of_top hs fun _ _ _ _ => nofun

/-- The pass of an iteration polls none but the tasks that it took. -/
theorem Polling.of_polls (hreach : Reachable client m) (h : Polling c base x m) {task : TaskId}
    (hpolls : m.Polls c base task) : task ∈ (x.tasks.tasks ++ x.spawned).map (·.id) := by
  obtain ⟨above', p', hs', hcurrent⟩ := hpolls
  cases h with
  | looks h hready =>
      obtain ⟨⟨polled, hs⟩, -⟩ := h
      have hheight := congrArg List.length (hs.symm.trans hs')
      simp at hheight
      omega
  | polls above f p hs hf hc hready hset =>
      obtain ⟨-, hlayer⟩ := layer_unique _ _ (hs'.symm.trans hs)
      cases hlayer
      cases hf
      have hpass : Layer.pass? (κ := κ) c (.operation (.pass p' : Frame β)) = some p' := by
        simp [Layer.pass?, Frame.pass?, Option.filter, hc]
      have hmanned := hreach.orderly.2 c
      unfold Machine.Manned Machine.passes at hmanned
      rw [hs, List.filterMap_append, List.filterMap_cons, hpass, List.filterMap_cons_none rfl]
        at hmanned
      have hdrop := List.forall₂_drop (above.filterMap (Layer.pass? c)).length hmanned
      rw [List.drop_left] at hdrop
      obtain ⟨ids, sets, hmem, houter, hsets⟩ := List.forall₂_cons_left_iff.mp hdrop
      -- counted from the bottom, the pass and its set have the same place
      have hplace : (m.world.roster c).passes.reverse[
          (base.filterMap (Layer.pass? c)).length]? = some ids := by
        rw [houter.length_eq, ← List.take_append_drop _ (m.world.roster c).passes, hsets,
          List.reverse_append, List.reverse_cons, List.append_assoc,
          List.getElem?_append_right (by simp)]
        simp
      exact hset ids hplace (hmem task hcurrent)

/-! ## The second half -/

theorem Dispatching.length_lt (h : Dispatching c base rest m) : base.length < m.stack.length := by
  cases h with
  | turns worked reply hs hm => simp [hs]
  | runs above id mayStay worked hs => simp [hs]; omega

/-- The sources have their turns one after the other, and then the iteration ends. -/
theorem Dispatching.step (client : Client σ β κ) (h : Dispatching c base rest m) :
    Dispatching c base rest (m.step client) ∧ m.upNext? base.length = none ∨
      (∃ id rest', rest = id :: rest' ∧ m.upNext? base.length = some id ∧
        Dispatching c base rest' (m.step client)) ∨
      rest = [] ∧ m.upNext? base.length = none ∧ (m.step client).stack = base := by
  cases h with
  | runs above id mayStay worked hs =>
      have hnone : m.upNext? base.length = none := Machine.upNext?_of_above hs
      rcases Machine.stays_or_resumes client hs with ⟨above', hs'⟩ | ⟨reply, -, -, hf⟩
      · exact .inl ⟨.runs above' id mayStay worked hs', hnone⟩
      · exact .inl ⟨.turns worked .proceed hf.stack hf.control, hnone⟩
  | turns worked reply hs hm =>
      have hf := Machine.follows_resume client hm hs
      change (m.step client).Follows (m.world.continueIteration c rest worked) base at hf
      unfold World.continueIteration at hf
      cases rest with
      | nil =>
          refine .inr (.inr ⟨rfl, ?_, hf.stack⟩)
          exact Machine.upNext?_of_top hs fun _ _ _ _ => nofun
      | cons id rest =>
          refine .inr (.inl ⟨id, rest, rfl, ?_, ?_⟩)
          · exact Machine.upNext?_eq_some.mpr ⟨⟨reply, hm⟩, c, rest, worked, base, hs, rfl⟩
          · dsimp only at hf
            split at hf
            · exact .turns worked .proceed hf.stack hf.control
            · next y work hy =>
                obtain ⟨-, -, above, -, hframes⟩ := Turn.startWork_frames
                  (m.world.setContext c y) c id work
                  [.sourceEnd c id work.mayStay, .iteration c rest worked]
                refine .runs (above.map .operation) id work.mayStay worked ?_
                rw [hf.stack, hframes]
                simp

/-- The stack tells which sources work. -/
theorem Machine.working_of_stack {stack : List (Layer β κ)} (hs : m.stack = stack) :
    m.working c = ((marks stack).flatMap (·.running c)).map (·.1) := by
  subst hs
  rfl

/-- A source that has its turn starts exactly if it is attached and idle. -/
theorem Machine.startsWork_iff {worked : Bool} {reply : Reply β} (hm : m.control = .deliver reply)
    (hs : m.stack = .operation (.iteration c rest worked) :: base) :
    m.StartsWork client c id ↔
      rest.head? = some id ∧ ∃ s, m.source? c id = some s ∧ s.running = false := by
  have hnow : m.working c = ((marks base).flatMap (·.running c)).map (·.1) := by
    rw [Machine.working_of_stack hs]
    rfl
  have hf := Machine.follows_resume client hm hs
  change (m.step client).Follows (m.world.continueIteration c rest worked) base at hf
  unfold World.continueIteration at hf
  unfold Machine.StartsWork
  cases rest with
  | nil =>
      have hnext : (m.step client).working c = m.working c :=
        (Machine.working_of_stack hf.stack).trans hnow.symm
      rw [hnext]
      simp
  | cons first rest =>
      dsimp only at hf
      split at hf
      · next hnone =>
          have hnext : (m.step client).working c = m.working c :=
            (Machine.working_of_stack hf.stack).trans hnow.symm
          rw [hnext]
          refine iff_of_false (by simp) ?_
          rintro ⟨hid, s, hsource, hidle⟩
          cases hid
          obtain ⟨t, ht, hfound⟩ := Machine.timetable_of_source? hsource
          obtain ⟨y, hy, rfl⟩ := Option.map_eq_some_iff.mp ht
          rw [show m.world.context? c = some y from hy] at hnone
          cases hidle.symm.trans (MainContext.of_beginRun_none hnone s hfound)
      · next y work hbegin =>
          obtain ⟨-, -, above, hplain, hframes⟩ := Turn.startWork_frames
            (m.world.setContext c y) c first work
            [.sourceEnd c first work.mayStay, .iteration c rest worked]
          have hnext : (m.step client).working c = first :: m.working c := by
            rw [Machine.working_of_stack hf.stack, hframes, List.map_append, List.append_assoc,
              Machine.marks_map hplain, hnow]
            simp [Frame.isMark, Frame.running]
          obtain ⟨z, hz, hbegin⟩ := Option.bind_eq_some_iff.mp hbegin
          obtain ⟨s, hfound, hidle, -⟩ := MainContext.of_beginRun hbegin
          rw [hnext]
          constructor
          · intro h
            obtain rfl := (List.cons.inj h).1
            exact ⟨rfl, s, (Machine.source?_eq (World.timetable?_eq hz) _).trans hfound, hidle⟩
          · rintro ⟨hid, -⟩
            cases hid
            rfl

theorem Dispatching.dispatches_iff (h : Dispatching c base rest m) :
    m.Dispatches client base.length c id ↔ m.upNext? base.length = some id ∧
      ∃ s, m.source? c id = some s ∧ s.running = false := by
  cases h with
  | runs above other mayStay worked hs =>
      refine iff_of_false (fun hd => ?_) fun hd => ?_
      · have hheight := hd.1
        simp only [hs, List.length_append, List.length_cons] at hheight
        omega
      · cases hd.1.symm.trans (Machine.upNext?_of_above hs)
  | turns worked reply hs hm =>
      have hhead : m.upNext? base.length = rest.head? := by
        cases rest with
        | nil => exact Machine.upNext?_of_top hs fun _ _ _ _ => nofun
        | cons first rest =>
            exact Machine.upNext?_eq_some.mpr ⟨⟨reply, hm⟩, c, rest, worked, base, hs, rfl⟩
      rw [hhead, ← Machine.startsWork_iff hm hs]
      exact and_iff_right (by rw [hs]; rfl)

/-- No source starts before the sources are collected. -/
theorem Polling.not_dispatches (h : Polling c base x m) :
    ¬ m.Dispatches client base.length c id := by
  rintro ⟨hheight, hstarts⟩
  cases h with
  | polls above f p hs hf hc hready hset =>
      simp only [hs, List.length_append, List.length_cons] at hheight
      omega
  | looks h hready =>
      obtain ⟨⟨polled, hs⟩, reply, hm⟩ := h
      have hf := Machine.follows_resume client hm hs
      change (m.step client).Follows (m.world.collect c polled) base at hf
      have hsame : (m.step client).working c = m.working c := by
        rw [Machine.working_of_stack hs, Machine.working_of_stack hf.stack]
        unfold World.collect
        split <;> rfl
      exact List.cons_ne_self id _ (hstarts.symm.trans hsame)

/-- The pass is over when sources are dispatched. -/
theorem Dispatching.not_polls (h : Dispatching c base rest m) {task : TaskId} :
    ¬ m.Polls c base task := by
  rintro ⟨above', p, hs', -⟩
  rw [List.append_cons] at hs'
  cases h with
  | turns worked reply hs hm =>
      obtain ⟨-, hlayer⟩ := layer_unique [] _ (hs.symm.trans hs')
      cases hlayer
  | runs above other mayStay worked hs =>
      rw [List.append_cons] at hs
      obtain ⟨-, hlayer⟩ := layer_unique _ _ (hs.symm.trans hs')
      cases hlayer

end

/-! ## The contract -/

section

variable {client : Client σ β κ} {m : Machine σ β κ} {c : ContextId} {x : MainContext β}

theorem Machine.lineup_succ (client : Client σ β κ) (m : Machine σ β κ) (height n : Nat) :
    m.lineup client height (n + 1) =
      m.lineup client height n ++ ((m.after client n).upNext? height).toList :=
  filterMap_range_succ _ n

/-- The tasks that a context holds have been given their numbers. -/
theorem Machine.Reachable.number_lt (hreach : Reachable client m) {id : TaskId}
    (hid : id ∈ (m.world.roster c).held) : id.number < (m.world.roster c).nextTask := by
  have hbooks : ∃ done lost, m.Accounted c done lost := by
    clear hid
    induction hreach with
    | initial state program => exact ⟨[], [], .refl _, rfl⟩
    | step hreach ih =>
        obtain ⟨done, lost, h⟩ := ih
        exact ⟨_, _, ((hreach.shift c).accounted (hreach.orderly.2 c) h).1⟩
  obtain ⟨done, lost, h⟩ := hbooks
  have hgiven := h.perm.mem_iff.mp
    (List.mem_append_left lost (List.mem_append_left done hid))
  obtain ⟨number, hnumber, rfl⟩ := List.mem_map.mp hgiven
  exact List.mem_range.mp hnumber

/-- The sources of an iteration are collected after so many steps; `t` is what they are collected
from. If there was no task to poll, it is what the iteration began with. -/
structure Collection (client : Client σ β κ) (m : Machine σ β κ) (c : ContextId) (x : MainContext β)
    (t : Timetable β) (j : Nat) : Prop where
  collects : (m.after client j).Collects c m.stack
  sources : (m.after client j).world.timetable? c = some t
  early : x.tasksReady = false → t = x.timetable

/-- An iteration is in its first half, or it has collected its sources, and those that have not had
their turns are still to have them before it is over. -/
theorem halves_of_iteration (hreach : Reachable client m)
    (hm : m.control = .perform (.iterate c)) (hx : m.world.context? c = some x) {n : Nat}
    (hbusy : ∀ i, 0 < i → i ≤ n → m.stack.length < (m.after client i).stack.length) :
    Polling c m.stack x (m.after client (n + 1)) ∧ m.lineup client m.stack.length (n + 1) = [] ∨
      ∃ j t rest, 0 < j ∧ j ≤ n ∧ Collection client m c x t j ∧
        m.lineup client m.stack.length (n + 1) ++ rest = t.ready ∧
        (Dispatching c m.stack rest (m.after client (n + 1)) ∨
          rest = [] ∧ (m.after client (n + 1)).stack = m.stack) := by
  induction n with
  | zero =>
      have hnone : m.upNext? m.stack.length = none := by
        unfold Machine.upNext?
        rw [hm]
      exact .inl ⟨.of_iterate hreach hm hx, by simp [Machine.lineup, Machine.after, hnone]⟩
  | succ n ih =>
      have hat := hreach.after (n + 1)
      have hexists : (m.after client (n + 1)).world.timetable? c ≠ none :=
        Machine.timetable?_after_ne_none client (by simp [World.timetable?_eq hx]) _
      rw [Machine.lineup_succ]
      rcases ih fun i hi hin => hbusy i hi (Nat.le_succ_of_le hin) with
        ⟨hpolling, hnone⟩ | ⟨j, t, rest, hj, hjn, hcollection, hlineup, hdispatching | ⟨-, hend⟩⟩
      · rw [hnone, hpolling.upNext?_eq_none]
        rcases hpolling.step hat hexists with hpolling | ⟨hcollects, hearly, t, ht, hdispatching⟩
        · exact .inl ⟨hpolling, rfl⟩
        · refine .inr ⟨n + 1, t, t.ready, Nat.succ_pos n, Nat.le_refl _,
            ⟨hcollects, ht, fun hnone => ?_⟩, rfl, .inl hdispatching⟩
          exact Option.some.inj (ht.symm.trans (hearly hnone))
      · refine .inr ⟨j, t, ?_⟩
        rcases hdispatching.step client with
          ⟨h, hnone⟩ | ⟨id, rest, rfl, hnext, h⟩ | ⟨rfl, hnone, hend⟩
        · exact ⟨rest, hj, Nat.le_succ_of_le hjn, hcollection, by simp [hnone, hlineup], .inl h⟩
        · exact ⟨rest, hj, Nat.le_succ_of_le hjn, hcollection, by simp [hnext, ← hlineup], .inl h⟩
        · exact ⟨[], hj, Nat.le_succ_of_le hjn, hcollection, by simp [hnone, ← hlineup],
            .inr ⟨rfl, hend⟩⟩
      · exact absurd hend (Machine.stack_ne_of_busy (hbusy (n + 1) (Nat.succ_pos n) (Nat.le_refl _)))

/-- An iteration in progress is in one of its halves. -/
theorem half_of_busy (hreach : Reachable client m) (hm : m.control = .perform (.iterate c))
    (hx : m.world.context? c = some x) {n : Nat}
    (hbusy : ∀ i, 0 < i → i ≤ n + 1 → m.stack.length < (m.after client i).stack.length) :
    Polling c m.stack x (m.after client (n + 1)) ∨
      ∃ rest, Dispatching c m.stack rest (m.after client (n + 1)) := by
  rcases halves_of_iteration hreach hm hx fun i hi hin => hbusy i hi (Nat.le_succ_of_le hin) with
    ⟨h, -⟩ | ⟨-, -, rest, -, -, -, -, h | ⟨-, hend⟩⟩
  · exact .inl h
  · exact .inr ⟨rest, h⟩
  · exact absurd hend (Machine.stack_ne_of_busy (hbusy (n + 1) (Nat.succ_pos n) (Nat.le_refl _)))

end

/-- **An iteration takes over what is there.** While an iteration is in progress, however its
callbacks and tasks behave,

* its pass polls none but tasks that the context held when the iteration was asked for;
* the sources are collected once, when the pass is over, and those that were collected have their
  turns, in order; a source that has its turn is dispatched exactly if it is attached and idle;
* so no source is dispatched that was attached after that moment, and if no task was there to be
  polled, none that was attached after the iteration was asked for.

Numbers of tasks and sources are given in ascending order. -/
theorem iterations_take_over (client : Client σ β κ) (m : Machine σ β κ)
    (hreach : Reachable client m) (c : ContextId) (x : MainContext β)
    (hm : m.control = .perform (.iterate c)) (hx : m.world.context? c = some x) (n : Nat)
    (hbusy : ∀ i, 0 < i → i ≤ n → m.stack.length < (m.after client i).stack.length) :
    (∀ i, i ≤ n → ∀ id, (m.after client i).Polls c m.stack id →
      id ∈ (x.tasks.tasks ++ x.spawned).map (·.id) ∧ id.number < x.nextTask) ∧
    (∀ i, i ≤ n → ∀ id, (m.after client i).Dispatches client m.stack.length c id ↔
      (m.after client i).upNext? m.stack.length = some id ∧
        ∃ s, (m.after client i).source? c id = some s ∧ s.running = false) ∧
    (m.lineup client m.stack.length (n + 1) = [] ∧
        m.stack.length < (m.after client (n + 1)).stack.length ∨
      ∃ j t, 0 < j ∧ j ≤ n ∧ Collection client m c x t j ∧
        m.lineup client m.stack.length (n + 1) <+: t.ready ∧
        ((m.after client (n + 1)).stack.length = m.stack.length →
          m.lineup client m.stack.length (n + 1) = t.ready) ∧
        ∀ id ∈ t.ready, id.number < t.nextSource) := by
  have half {i : Nat} (hi : i + 1 ≤ n) :=
    half_of_busy hreach hm hx fun k hk hki => hbusy k hk (Nat.le_trans hki hi)
  refine ⟨fun i hi id hpolls => ?_, fun i hi id => ?_, ?_⟩
  · have htaken : id ∈ (x.tasks.tasks ++ x.spawned).map (·.id) := by
      cases i with
      | zero =>
          obtain ⟨above, p, hs, -⟩ := hpolls
          have hheight := congrArg List.length hs
          simp only [Machine.after, List.length_append, List.length_cons] at hheight
          omega
      | succ i =>
          rcases half hi with h | ⟨rest, h⟩
          · exact h.of_polls (hreach.after _) hpolls
          · exact absurd hpolls h.not_polls
    have hheld : id ∈ (m.world.roster c).held := by
      rw [World.roster_eq hx, Roster.held, List.mem_append, List.mem_append]
      rw [List.map_append, List.mem_append] at htaken
      exact .inl htaken.symm
    have hnumber := hreach.number_lt hheld
    rw [World.roster_eq hx] at hnumber
    exact ⟨htaken, hnumber⟩
  · cases i with
    | zero =>
        refine iff_of_false (fun h => ?_) fun h => ?_
        · exact Nat.lt_irrefl _ (Nat.lt_of_lt_of_eq (Nat.lt_succ_self _) h.1.symm)
        · obtain ⟨⟨reply, hdeliver⟩, -⟩ := Machine.upNext?_eq_some.mp h.1
          cases hm.symm.trans hdeliver
    | succ i =>
        rcases half hi with h | ⟨rest, h⟩
        · refine iff_of_false h.not_dispatches fun hnext => ?_
          cases h.upNext?_eq_none.symm.trans hnext.1
        · exact h.dispatches_iff
  · rcases halves_of_iteration hreach hm hx hbusy with
      ⟨h, hnone⟩ | ⟨j, t, rest, hj, hjn, hcollection, hlineup, hend⟩
    · exact .inl ⟨hnone, h.length_lt⟩
    · refine .inr ⟨j, t, hj, hjn, hcollection, ⟨rest, hlineup⟩, fun hover => ?_, fun id hid => ?_⟩
      · rcases hend with h | ⟨rfl, -⟩
        · exact absurd hover (Nat.ne_of_gt h.length_lt)
        · rw [← hlineup, List.append_nil]
      · obtain ⟨s, hs, -, rfl⟩ := Timetable.collects_of_mem_ready hid
        exact (((hreach.after j).desk c).present t hcollection.sources).fresh s hs

/-- A program whose task attaches an idle source and spawns another task; the source attaches another
one. -/
def attacher : Client Unit Nat (Routine Nat) :=
  .ofRoutines
    (fun
      | 0 => { acts := [.command (.newContext { clock := .manual }), .command (.spawn ⟨0⟩ 1),
          .command (.iterate ⟨0⟩)] }
      | 1 => { acts := [.command (.addIdle ⟨0⟩ .standard false 2), .command (.spawn ⟨0⟩ 3)] }
      | 2 => { acts := [.command (.addIdle ⟨0⟩ .standard false 3)], outcome := .flow false }
      | _ => {})
    []

/-- A state of the run of `attacher`. -/
def attacherAfter (n : Nat) : Machine Unit Nat (Routine Nat) :=
  (Machine.initial () 0).after attacher n

set_option maxRecDepth 100000 in
/-- In the iteration of `attacher`, the pass polls only the first of two tasks, and of the two sources
only the first has its turn, which its task attached before the sources were collected. -/
theorem iterations_take_over_attacher :
    (attacherAfter 6).control = .perform (.iterate ⟨0⟩) ∧
      (∀ i, i ≤ 17 → ∀ id, ((attacherAfter 6).after attacher i).Polls ⟨0⟩ (attacherAfter 6).stack id →
        id = ⟨0⟩) ∧
      ((attacherAfter 24).world.context? ⟨0⟩).map (·.nextTask) = some 2 ∧
      (∃ j t, 0 < j ∧ ((attacherAfter 6).after attacher j).world.timetable? ⟨0⟩ = some t ∧
        t.ready = [⟨0⟩]) ∧
      (∀ i, i ≤ 17 → ¬ ((attacherAfter 6).after attacher i).Dispatches attacher 1 ⟨0⟩ ⟨1⟩) ∧
      ((attacherAfter 24).world.context? ⟨0⟩).map (·.nextSource) = some 2 := by
  have hreach : Reachable attacher (attacherAfter 6) := (Machine.Reachable.initial () 0).after 6
  have hm : (attacherAfter 6).control = .perform (.iterate ⟨0⟩) := rfl
  have hlength : (attacherAfter 6).stack.length = 1 := by decide +kernel
  have hnext : ((attacherAfter 6).world.context? ⟨0⟩).map (·.nextTask) = some 1 := by decide +kernel
  have hbusy : ∀ i, i ≤ 17 → 0 < i →
      (attacherAfter 6).stack.length < ((attacherAfter 6).after attacher i).stack.length := by
    decide +kernel
  have hlineup : (attacherAfter 6).lineup attacher 1 18 = [⟨0⟩] := by decide +kernel
  have hover : ((attacherAfter 6).after attacher 18).stack.length = 1 := by decide +kernel
  have hnone : ∀ i, i ≤ 17 → ((attacherAfter 6).after attacher i).upNext? 1 ≠ some ⟨1⟩ := by
    decide +kernel
  obtain ⟨x, hx, hnumber⟩ := Option.map_eq_some_iff.mp hnext
  obtain ⟨htasks, hsources, hturns⟩ := iterations_take_over attacher (attacherAfter 6) hreach ⟨0⟩ x
    hm hx 17 fun i hpos hi => hbusy i hi hpos
  rw [hlength] at hsources hturns
  refine ⟨hm, fun i hi id hpolls => ?_, by decide +kernel, ?_, fun i hi hdispatches => ?_,
    by decide +kernel⟩
  · have hlt := (htasks i hi id hpolls).2
    rw [hnumber, Nat.lt_one_iff] at hlt
    exact congrArg TaskId.mk hlt
  · rcases hturns with ⟨hnil, -⟩ | ⟨j, t, hpos, -, hcollection, -, hall, -⟩
    · cases hnil.symm.trans hlineup
    · exact ⟨j, t, hpos, hcollection.sources, (hall hover).symm.trans hlineup⟩
  · exact hnone i hi ((hsources i hi ⟨1⟩).mp hdispatches).1

set_option maxRecDepth 100000 in
/-- The iteration of `attacher` dispatches a source that was attached while it was in progress: no
source had been attached when it was asked for. -/
theorem dispatched_while_attaching :
    (attacherAfter 6).control = .perform (.iterate ⟨0⟩) ∧
      ((attacherAfter 6).world.context? ⟨0⟩).map (·.nextSource) = some 0 ∧
      (∀ i, i ≤ 12 → 0 < i →
        (attacherAfter 6).stack.length < ((attacherAfter 6).after attacher i).stack.length) ∧
      ((attacherAfter 6).after attacher 11).Dispatches attacher (attacherAfter 6).stack.length ⟨0⟩
        ⟨0⟩ := by
  refine ⟨rfl, by decide +kernel, by decide +kernel, by decide +kernel, ?_⟩
  unfold Machine.StartsWork
  decide +kernel

end ObjectSystem
