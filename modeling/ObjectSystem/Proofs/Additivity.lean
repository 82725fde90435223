import Mathlib
import ObjectSystem.Proofs.Strides

/-!
# Advances are additive

An advance by `a + b` does the same as an advance by `a` and then one by `b`. Up to the end of the
first, the single one and the first are in lockstep (`Leads.run`). The stop in between changes
nothing: the first advance puts the clock at its target, where nothing is due (`Stopping.arrives`),
and the second finds nothing pending (`Stopping.departs`); nothing is reclaimed meanwhile, because
the state is tidy and the context is kept by more than the advance. From there the second advance is
in lockstep with what is left of the single one, but for what the first has counted (`Trails.run`).
-/

namespace ObjectSystem

variable {σ β κ : Type}

open Machine (Reachable)

/-! ## Starts -/

namespace Machine

/-- The callback that starts or goes on with the next step, and the time of a context. -/
def start? (m : Machine σ β κ) (c : ContextId) : Option (Control β × Nat) :=
  match m.control with
  | .invoke .. | .continueTask .. => some (m.control, m.time c)
  | _ => none

/-- The callbacks that start or go on in a number of steps, each with the time of a context. -/
def startsOf (client : Client σ β κ) (m : Machine σ β κ) (c : ContextId) (n : Nat) :
    List (Control β × Nat) :=
  (List.range n).filterMap fun i => (m.after client i).start? c

theorem startsOf_add (client : Client σ β κ) (m : Machine σ β κ) (c : ContextId) (j k : Nat) :
    m.startsOf client c (j + k) = m.startsOf client c j ++ (m.after client j).startsOf client c k :=
  log_add client (·.start? c) m j k

theorem startsOf_congr {client : Client σ β κ} {m m' : Machine σ β κ} {c : ContextId} {n : Nat}
    (h : ∀ i, i < n → (m.after client i).start? c = (m'.after client i).start? c) :
    m.startsOf client c n = m'.startsOf client c n :=
  List.filterMap_congr fun i hi => h i (List.mem_range.mp hi)

theorem start?_of_deliver {m : Machine σ β κ} {reply : Reply β} (h : m.control = .deliver reply)
    (c : ContextId) : m.start? c = none := by
  unfold start?
  rw [h]

theorem startsOf_eq_nil {client : Client σ β κ} {m : Machine σ β κ} {c : ContextId} {n : Nat}
    (h : ∀ i, i < n → (m.after client i).start? c = none) : m.startsOf client c n = [] :=
  show log client (·.start? c) m n = [] from log_eq_nil h

/-- The delivery of a reply starts nothing. -/
theorem startsOf_of_deliver {m : Machine σ β κ} {reply : Reply β} (h : m.control = .deliver reply)
    (client : Client σ β κ) (c : ContextId) (n : Nat) :
    m.startsOf client c (1 + n) = (m.step client).startsOf client c n := by
  have hnone : m.startsOf client c 1 = [] := by
    refine startsOf_eq_nil fun i hi => ?_
    obtain rfl := Nat.lt_one_iff.mp hi
    exact start?_of_deliver h c
  rw [startsOf_add, hnone]
  rfl

end Machine

/-! ## The stop in between -/

section
variable {client : Client σ β κ} {m : Machine σ β κ} {c : ContextId} {stop more count ran : Nat}
  {stage : AdvanceStage} {base : List (Layer β κ)} {x : MainContext β}

/-- An advance of a manual clock begins with a run until idle. -/
theorem World.advance_eq_of_manual {w : World β} (hx : w.context? c = some x)
    (hmanual : x.config.clock = .manual) {duration : Nat} :
    w.advance c duration =
      .perform w (.runUntilIdle c) [.advance c (x.now + duration) 0 .before] := by
  unfold advance
  rw [hx]
  simp only [hmanual]

/-- A run until idle that finds nothing pending answers at once. -/
theorem Machine.step_of_idle {stack : List (Layer β κ)} (hx : m.world.context? c = some x)
    (hidle : x.pending = false)
    (htidy : (m.busyWith stack (.deliver (.count 0))).isTidy client = true) :
    (m.busyWith stack (.perform (.runUntilIdle c))).step client =
      m.busyWith stack (.deliver (.count 0)) := by
  refine step_of_tidy ?_ htidy
  rw [advance_perform (m := m.busyWith stack _) client rfl]
  have hdrain : m.world.drain c 0 = .reply m.world (.count 0) := by
    unfold World.drain
    rw [hx]
    exact if_neg (by simp [hidle])
  show Machine.follow client (m.busyWith stack _) stack (m.world.drain c 0) = _
  rw [hdrain]
  rfl

/-- A context is kept by other work than an operation on top of it. -/
def Machine.Keeps (client : Client σ β κ) (m : Machine σ β κ) (c : ContextId)
    (base : List (Layer β κ)) : Prop :=
  c ∈ m.world.keptContexts (client.keeps m.client ++ base.flatMap (Machine.layerHandles client))

theorem Machine.Keeps.of_kept (h : .context c ∈ client.keeps m.client) : m.Keeps client c base :=
  World.mem_keptContexts.mpr
    ⟨.context c, List.mem_append_left _ (List.mem_append_left _ h), rfl⟩

/-- The first steps of a run keep work on top of some layers, and start no callback. -/
structure Silent (client : Client σ β κ) (c : ContextId) (base : List (Layer β κ))
    (m : Machine σ β κ) (n : Nat) : Prop where
  busy : ∀ i, 0 < i → i < n → base.length < (m.after client i).stack.length
  starts : ∀ i, i < n → (m.after client i).start? c = none

/-- Three steps are silent if the states they lead through are. -/
theorem silent_of_three {m₁ m₂ : Machine σ β κ} (h₁ : m.step client = m₁)
    (h₂ : m₁.step client = m₂) (hbusy : base.length < m₁.stack.length ∧
      base.length < m₂.stack.length)
    (hstarts : m.start? c = none ∧ m₁.start? c = none ∧ m₂.start? c = none) :
    Silent client c base m 3 := by
  have hafter₁ : m.after client 1 = m₁ := h₁
  have hafter₂ : m.after client 2 = m₂ := (congrArg (Machine.step client) h₁).trans h₂
  constructor
  · intro i hpos hi
    match i, hpos, hi with
    | 1, _, _ => exact hafter₁ ▸ hbusy.1
    | 2, _, _ => exact hafter₂ ▸ hbusy.2
  · intro i hi
    match i, hi with
    | 0, _ => exact hstarts.1
    | 1, _ => exact hafter₁ ▸ hstarts.2.1
    | 2, _ => exact hafter₂ ▸ hstarts.2.2

/-! ### An advance that is about to go beyond a time -/

/-- An advance has run what was due and is about to go beyond a time, and its context is kept by other
work too. -/
structure Stopping (client : Client σ β κ) (c : ContextId) (stop target count : Nat)
    (stage : AdvanceStage) (base : List (Layer β κ)) (m : Machine σ β κ) (ran : Nat)
    (x : MainContext β) : Prop extends Poised c stop stage [] m ran x where
  stack : m.stack = .operation (.advance c target count stage) :: base
  unfinished : stage ≠ .after
  tidy : m.isTidy client = true
  now : x.now ≤ stop
  kept : m.Keeps client c base

namespace Stopping

/-- An advance may give way to anything else on top of the same work. -/
theorem tidy_busyWith {target : Nat} (h : Stopping client c stop target count stage base m ran x)
    (above : List (Layer β κ)) (habove : above.flatMap Machine.layerEvents = [])
    (control : Control β) : (m.busyWith (above ++ base) control).isTidy client = true := by
  refine Machine.tidy_busyWith h.tidy (fun g hmem => ?_) ?_
  · rw [h.heard, h.stack] at hmem
    rcases List.mem_cons.mp hmem with rfl | hmem
    · -- the context is kept by the other work
      refine .inr ⟨c, rfl, World.keptContexts_mono (List.append_subset.mpr ⟨?_, ?_⟩) h.kept⟩
      · exact List.subset_append_left _ _
      · rw [List.flatMap_append]
        exact List.Subset.trans (List.subset_append_right _ _) (List.subset_append_right _ _)
    · refine .inl (List.mem_append_right _ ?_)
      rw [List.flatMap_append]
      exact List.mem_append_right _ hmem
  · rw [h.stack, List.flatMap_append, habove]
    rfl

/-- At the time of the stop nothing is pending, and nothing is reclaimed. -/
theorem at_stop {target : Nat} (h : Stopping client c stop target count stage base m ran x) :
    (m.setClock c stop).world.context? c = some { x with now := stop } ∧
      ({ x with now := stop } : MainContext β).pending = false ∧
      ∀ above : List (Layer β κ), above.flatMap Machine.layerEvents = [] → ∀ control,
        ((m.setClock c stop).busyWith (above ++ base) control).isTidy client = true :=
  ⟨World.context?_setTime h.context stop, MainContext.pending_at h.none_due h.idle,
    fun above habove control => Machine.tidy_setClock (h.tidy_busyWith above habove control) c stop⟩

/-- An advance to the stop instead puts the clock there, finds nothing due, and answers. -/
theorem arrives {target : Nat} (h : Stopping client c stop target count stage base m ran x) :
    let first := m.busyWith (.operation (.advance c stop count stage) :: base) m.control
    first.after client 3 = (m.setClock c stop).busyWith base (.deliver (.count (count + ran))) ∧
      Silent client c base first 3 := by
  intro first
  obtain ⟨hx, hidle, tidy⟩ := h.at_stop
  let at_target (control : Control β) : Machine σ β κ := (m.setClock c stop).busyWith
    (.operation (.advance c stop (count + ran) .after) :: base) control
  have h₁ : first.step client = at_target (.perform (.runUntilIdle c)) := by
    have hstep := Machine.step_of_stride (m := first)
      (h.tidy_busyWith [.operation (.advance c stop count stage)] rfl m.control) rfl h.unfinished
      h.heard h.has_run h.context
    rwa [MainContext.stride_of_none_due h.none_due] at hstep
  have h₂ : (at_target (.perform (.runUntilIdle c))).step client = at_target (.deliver (.count 0)) :=
    Machine.step_of_idle hx hidle (tidy [_] rfl _)
  have h₃ : (at_target (.deliver (.count 0))).step client =
      (m.setClock c stop).busyWith base (.deliver (.count (count + ran))) := by
    refine Machine.step_of_tidy ?_ (tidy [] rfl _)
    rw [Machine.advance_resume (m := at_target _) client rfl rfl]
    rfl
  constructor
  · show ((first.step client).step client).step client = _
    rw [h₁, h₂, h₃]
  · refine silent_of_three h₁ h₂ ⟨Nat.lt_succ_self _, Nat.lt_succ_self _⟩ ⟨?_, rfl, rfl⟩
    exact Machine.start?_of_deliver (m := m.busyWith _ m.control) h.heard c

/-- An advance that is asked for at the stop finds nothing pending, and makes the stride that the other
one makes. -/
theorem departs (h : Stopping client c stop (stop + more) count stage base m ran x)
    (hmanual : x.config.clock = .manual) :
    let second := (m.setClock c stop).busyWith base (.perform (.advance c more))
    Silent client c base second 3 ∧
      ∃ stage', (m.step client).stack =
          .operation (.advance c (stop + more) (count + ran) stage') :: base ∧
        second.after client 3 =
          (m.step client).busyWith (.operation (.advance c (stop + more) 0 stage') :: base)
            (m.step client).control := by
  intro second
  obtain ⟨hx, hidle, tidy⟩ := h.at_stop
  let anew (control : Control β) : Machine σ β κ := (m.setClock c stop).busyWith
    (.operation (.advance c (stop + more) 0 .before) :: base) control
  have h₁ : second.step client = anew (.perform (.runUntilIdle c)) := by
    refine Machine.step_of_tidy ?_ (tidy [_] rfl _)
    rw [Machine.advance_perform (m := second) client rfl]
    show Machine.follow client second base ((m.setClock c stop).world.advance c more) = _
    rw [World.advance_eq_of_manual hx hmanual]
    rfl
  have h₂ : (anew (.perform (.runUntilIdle c))).step client = anew (.deliver (.count 0)) :=
    Machine.step_of_idle hx hidle (tidy [_] rfl _)
  have h₃ := Machine.step_of_stride (m := anew (.deliver (.count 0))) (tidy [_] rfl _) rfl
    (by decide) rfl (fun hc => (by cases hc)) hx
  have hstep := Machine.step_of_stride h.tidy h.stack h.unfinished h.heard h.has_run h.context
  rw [MainContext.stride_from h.none_due h.now] at h₃
  refine ⟨silent_of_three h₁ h₂ ⟨Nat.lt_succ_self _, Nat.lt_succ_self _⟩ ⟨rfl, rfl, rfl⟩,
    (x.stride (stop + more)).2, ?_, ?_⟩
  · rw [hstep]
    rfl
  · show ((second.step client).step client).step client = _
    rw [h₁, h₂, h₃, hstep]
    have hclock : (m.setClock c stop).setClock c (x.stride (stop + more)).1 =
        m.setClock c (x.stride (stop + more)).1 := by
      unfold Machine.setClock
      rw [World.setTime_setTime]
    rw [← hclock]
    simp only [Nat.add_zero]
    rfl

end Stopping

end

/-! ## Lockstep -/

/-- With another layer in the place of one, a stack is as high as before. -/
theorem Machine.busy_of_replaced {m : Machine σ β κ} {above base : List (Layer β κ)}
    {layer : Layer β κ} (hs : m.stack = above ++ layer :: base) (other : Layer β κ) :
    base.length < m.stack.length ∧
      (m.busyWith (above ++ other :: base) m.control).stack.length = m.stack.length := by
  rw [hs]
  constructor
  · rw [List.length_append, List.length_cons]
    omega
  · simp [busyWith]

/-- An advance and one that has counted less, both otherwise the same. -/
inductive Trails (c : ContextId) (target more : Nat) (base : List (Layer β κ))
    (m q : Machine σ β κ) : Prop
  | of (above : List (Layer β κ)) (count : Nat) (stage : AdvanceStage)
      (hs : m.stack = above ++ .operation (.advance c target (more + count) stage) :: base)
      (hq : q = m.busyWith (above ++ .operation (.advance c target count stage) :: base) m.control)

/-- How an advance goes on does not depend on what it has counted. -/
theorem World.continueAdvance_add {w : World β} {c : ContextId} {x : MainContext β}
    (hx : w.context? c = some x) (target more count : Nat) (stage : AdvanceStage)
    (reply : Reply β) :
    (∃ now count' stage',
      w.continueAdvance c target (more + count) stage reply = .perform (w.setTime c now)
        (.runUntilIdle c) [.advance c target (more + count') stage'] ∧
      w.continueAdvance c target count stage reply = .perform (w.setTime c now)
        (.runUntilIdle c) [.advance c target count' stage']) ∨
    ∃ count', w.continueAdvance c target (more + count) stage reply =
        .reply w (.count (more + count')) ∧
      w.continueAdvance c target count stage reply = .reply w (.count count') := by
  unfold continueAdvance
  extract_lets ran
  clear_value ran
  cases stage with
  | before =>
      dsimp only
      rw [Nat.add_assoc, stepClock_eq hx, stepClock_eq hx]
      exact .inl ⟨_, _, _, rfl, rfl⟩
  | within =>
      dsimp only
      split
      · exact .inl ⟨_, _, _, rfl, rfl⟩
      · rw [Nat.add_assoc, stepClock_eq hx, stepClock_eq hx]
        exact .inl ⟨_, _, _, rfl, rfl⟩
  | after => exact .inr ⟨count + ran, by rw [Nat.add_assoc], rfl⟩

namespace Trails

variable {client : Client σ β κ} {m q : Machine σ β κ} {c : ContextId} {target more : Nat}
  {base : List (Layer β κ)}

theorem busy (h : Trails c target more base m q) :
    base.length < m.stack.length ∧ q.stack.length = m.stack.length := by
  obtain ⟨above, count, stage, hs, rfl⟩ := h
  exact Machine.busy_of_replaced hs _

theorem start? (h : Trails c target more base m q) (d : ContextId) :
    q.start? d = m.start? d := by
  obtain ⟨above, count, stage, hs, rfl⟩ := h
  rfl

/-- A step takes both on, or both answer. -/
theorem step (client : Client σ β κ) (h : Trails c target more base m q)
    (hexists : m.world.context? c ≠ none) :
    Trails c target more base (m.step client) (q.step client) ∨
      ∃ count, (m.step client).stack = base ∧
        (m.step client).control = .deliver (.count (more + count)) ∧
        q.step client = (m.step client).busyWith base (.deliver (.count count)) := by
  obtain ⟨above, count, stage, hs, rfl⟩ := h
  by_cases htop : above ≠ [] ∨ ∀ reply, m.control ≠ .deliver reply
  · obtain ⟨above', hs', hstep⟩ := Machine.step_above client
      (.operation (.advance c target count stage) :: base) hs htop rfl rfl
    exact .inl ⟨above', count, stage, hs', hstep⟩
  · -- the advances themselves go on
    rw [not_or, Classical.not_not, not_forall] at htop
    obtain ⟨rfl, reply, hm⟩ := htop
    have hm : m.control = .deliver reply := Classical.not_not.mp hm
    rw [List.nil_append] at hs
    have hsame : m.HoldsSame client (.operation (.advance c target count stage) :: base)
        m.control := holdsSame_of_advance [] hs target count
    have hadvance := Machine.advance_resume client hm hs
    let q := m.busyWith (.operation (.advance c target count stage) :: base) m.control
    have hadvance' : q.advance client = m.follow client base
        (m.world.continueAdvance c target count stage reply) :=
      Machine.advance_resume (m := q) client hm rfl
    change m.advance client = m.follow client base
      (m.world.continueAdvance c target (more + count) stage reply) at hadvance
    obtain ⟨x, hx⟩ := Option.ne_none_iff_exists'.mp hexists
    rcases World.continueAdvance_add hx target more count stage reply with
      ⟨now, count', stage', hgo, hgo'⟩ | ⟨count', hgo, hgo'⟩
    · rw [hgo] at hadvance
      rw [hgo'] at hadvance'
      refine .inl ⟨[], count', stage', ?_, ?_⟩
      · rw [Machine.stack_step, hadvance]
        rfl
      · rw [Machine.control_step, hadvance]
        exact hsame.step hadvance hadvance' ⟨rfl, rfl⟩
    · rw [hgo] at hadvance
      rw [hgo'] at hadvance'
      refine .inr ⟨count', ?_, ?_, ?_⟩
      · rw [Machine.stack_step, hadvance]
        rfl
      · rw [Machine.control_step, hadvance]
        rfl
      · exact hsame.step hadvance hadvance' ⟨rfl, rfl⟩

/-- Both answer at the same time, and until then start the same callbacks. -/
theorem run {n : Nat} (h : Trails c target more base m q)
    (hexists : ∀ i, i < n → (m.after client i).world.context? c ≠ none)
    (hbusy : ∀ i, i < n → base.length < (m.after client i).stack.length)
    (hend : (m.after client n).stack = base) :
    (∃ count, (m.after client n).control = .deliver (.count (more + count)) ∧
      q.after client n = (m.after client n).busyWith base (.deliver (.count count))) ∧
    ∀ i, i < n → Trails c target more base (m.after client i) (q.after client i) := by
  -- as long as there is more on the stack, neither has answered
  have both : ∀ i, i < n → Trails c target more base (m.after client i) (q.after client i) := by
    intro i hi
    induction i with
    | zero => exact h
    | succ i ih =>
        rcases (ih (Nat.lt_of_succ_lt hi)).step client (hexists i (Nat.lt_of_succ_lt hi)) with h | ⟨count, hs, -⟩
        · exact h
        · exact absurd hs (Machine.stack_ne_of_busy (hbusy (i + 1) hi))
  refine ⟨?_, both⟩
  cases n with
  | zero => exact absurd hend (Machine.stack_ne_of_busy h.busy.1)
  | succ n =>
      rcases (both n (Nat.lt_succ_self n)).step client (hexists n (Nat.lt_succ_self n)) with
        h | ⟨count, -, hm, hq⟩
      · exact absurd hend (Machine.stack_ne_of_busy h.busy.1)
      · exact ⟨count, hm, hq⟩

end Trails

namespace Leads

variable {client : Client σ β κ} {m q : Machine σ β κ} {c : ContextId} {stop target : Nat}
  {base : List (Layer β κ)}

theorem busy (h : Leads client c stop target base m q) :
    base.length < m.stack.length ∧ q.stack.length = m.stack.length := by
  obtain ⟨above, count, stage, h, rfl⟩ := h
  exact Machine.busy_of_replaced h.stack _

theorem start? (h : Leads client c stop target base m q) (d : ContextId) :
    q.start? d = m.start? d := by
  obtain ⟨above, count, stage, h, rfl⟩ := h
  rfl

/-- An advance that answers has been about to go beyond any time up to its target; until then, one to
that time does the same. -/
theorem run {n : Nat} (h : Leads client c stop target base m q) (hle : stop ≤ target)
    (hsound : ∀ i, i < n → ((m.after client i).desk c).Sound)
    (hmanual : ∀ i, i < n → ∃ t, (m.after client i).world.timetable? c = some t ∧
      t.config.clock = .manual)
    (hasked : ∀ i, i < n → ∀ command, (m.after client (i + 1)).asked = some command →
      command.movesClock c = false)
    (hend : (m.after client n).stack = base) :
    ∃ i, i < n ∧ (∀ j, j ≤ i → Leads client c stop target base (m.after client j)
        (q.after client j)) ∧
      ∃ count stage ran x, Underway client c stop target count stage [] base (m.after client i) ∧
        Poised c stop stage [] (m.after client i) ran x ∧
        q.after client i = (m.after client i).busyWith
          (.operation (.advance c stop count stage) :: base) (m.after client i).control := by
  refine Classical.byContradiction fun hnone => ?_
  -- otherwise it would be under way for ever
  have always : ∀ i, i ≤ n → ∀ j, j ≤ i →
      Leads client c stop target base (m.after client j) (q.after client j) := by
    intro i hi
    induction i with
    | zero =>
        intro j hj
        obtain rfl := Nat.le_zero.mp hj
        exact h
    | succ i ih =>
        have before := ih (Nat.le_of_succ_le hi)
        intro j hj
        rcases Nat.lt_or_eq_of_le hj with hj | rfl
        · exact before j (Nat.le_of_lt_succ hj)
        · obtain ⟨above, count, stage, hunder, hq⟩ := before i (Nat.le_refl i)
          rcases hunder.step hle (hsound i hi) (hmanual i hi) (hasked i hi) with
            hleads | ⟨ran, x, hpoised⟩
          · rw [← hq] at hleads
            exact hleads
          · obtain rfl := hpoised.top
            exact absurd ⟨i, hi, before, count, stage, ran, x, hunder, hpoised, hq⟩ hnone
  exact Machine.stack_ne_of_busy (always n (Nat.le_refl n) n (Nat.le_refl n)).busy.1 hend

end Leads

/-! ## Additivity -/

section Additivity

variable {client : Client σ β κ} {m m' : Machine σ β κ} {c : ContextId} {x : MainContext β}

theorem config_asking (client : Client σ β κ) (hx : m.world.context? c = some x)
    (command : Command β) (i : Nat) :
    ∃ t, ((m.asking command).after client i).world.timetable? c = some t ∧
      t.config = x.config :=
  Machine.config_after (m := m.asking command) client hx i

/-- With their first steps, two advances of different lengths are under way. -/
theorem leads_of_asking (client : Client σ β κ) (hx : m.world.context? c = some x)
    (hmanual : x.config.clock = .manual) (a b : Nat) :
    Leads client c (x.now + a) (x.now + a + b) m.stack
      ((m.asking (.advance c (a + b))).step client) ((m.asking (.advance c a)).step client) := by
  let single := m.asking (.advance c (a + b))
  have hbegin (duration : Nat) : (m.asking (.advance c duration)).advance client = m.busyWith
      (.operation (.advance c (x.now + duration) 0 .before) :: m.stack)
      (.perform (.runUntilIdle c)) := by
    rw [Machine.advance_perform (m := m.asking (.advance c duration)) client rfl]
    show Machine.follow client (m.asking _) m.stack (m.world.advance c duration) = _
    rw [World.advance_eq_of_manual hx hmanual]
    rfl
  have hsingle := hbegin (a + b)
  rw [← Nat.add_assoc] at hsingle
  have hsame : single.HoldsSame client m.stack (.perform (.advance c a)) := ⟨rfl, rfl⟩
  have hstep := hsame.step hsingle (hbegin a) ⟨rfl, rfl⟩
  have hs : (single.step client).stack =
      .operation (.advance c (x.now + a + b) 0 .before) :: m.stack := by
    rw [Machine.stack_step, hsingle]
    rfl
  have hm : (single.step client).control = .perform (.runUntilIdle c) := by
    rw [Machine.control_step, hsingle]
    rfl
  refine ⟨[], 0, .before, ⟨hs, .asks rfl hm fun hc => (by cases hc), ⟨fun f hf => (by cases hf), ?_⟩,
    ?_, by decide, Machine.tidy_step client single⟩, ?_⟩
  · intro command hc
    cases hm.symm.trans hc
    rfl
  · have hnot : ¬ single.Ticking c := by
      intro hticking
      obtain ⟨_, _, _, _, _, -, hdeliver⟩ := hticking.of_manual fun t ht => by
        cases (World.timetable?_eq hx).symm.trans ht
        exact hmanual
      cases hdeliver
    rw [time_step_of_not_ticking client hnot,
      Machine.time_eq (m := single) (World.timetable?_eq hx)]
    exact Nat.le_add_right _ _
  · rw [hm]
    exact hstep

/-- A command is answered if there is more on the stack in both parts of the run. -/
theorem Machine.Answers.of_parts {command : Command β} {reply : Reply β} {j k : Nat}
    (hfirst : ∀ i, 0 < i → i < j →
      m.stack.length < ((m.asking command).after client i).stack.length)
    (hsecond : ∀ i, i < k →
      m.stack.length < (((m.asking command).after client j).after client i).stack.length)
    (hend : ((m.asking command).after client j).after client k =
      m'.busyWith m.stack (.deliver reply)) :
    m.Answers client command reply (j + k) := by
  rw [← Machine.after_add] at hend
  refine ⟨fun i hpos hi => ?_, by rw [hend]; rfl, by rw [hend]; rfl⟩
  rcases Nat.lt_or_ge i j with hlt | hge
  · exact hfirst i hpos hlt
  · obtain ⟨d, rfl⟩ := Nat.exists_eq_add_of_le hge
    rw [Machine.after_add]
    exact hsecond d (Nat.lt_of_add_lt_add_left hi)

namespace Stopping

variable {stop target more count ran : Nat} {stage : AdvanceStage} {y : MainContext β}

/-- An advance under way that is about to go beyond the time. -/
theorem of_underway {base : List (Layer β κ)}
    (h : Underway client c stop target count stage [] base m)
    (hpoised : Poised c stop stage [] m ran y) (hkept : m.Keeps client c base) :
    Stopping client c stop target count stage base m ran y where
  toPoised := hpoised
  stack := h.stack
  unfinished := h.unfinished
  tidy := h.tidy
  now := by
    have htime := h.time
    rwa [Machine.time_eq (World.timetable?_eq hpoised.context)] at htime
  kept := hkept

/-- The advance to the stop answers, having started the same callbacks so far. -/
theorem answers {command command' : Command β} {i : Nat}
    (h : Stopping client c stop target count stage m.stack
      ((m.asking command).after client (1 + i)) ran y)
    (hleads : ∀ j, j ≤ i → Leads client c stop target m.stack
      ((m.asking command).after client (1 + j)) ((m.asking command').after client (1 + j)))
    (hq : (m.asking command').after client (1 + i) =
      ((m.asking command).after client (1 + i)).busyWith
        (.operation (.advance c stop count stage) :: m.stack)
        ((m.asking command).after client (1 + i)).control) :
    (m.asking command').after client (1 + i + 3) =
        (((m.asking command).after client (1 + i)).setClock c stop).busyWith m.stack
          (.deliver (.count (count + ran))) ∧
      m.Answers client command' (.count (count + ran)) (1 + i + 3) ∧
      (m.asking command').startsOf client c (1 + i + 3) =
        (m.asking command).startsOf client c (1 + i) := by
  obtain ⟨harrives, hsilent⟩ := h.arrives
  rw [← hq] at harrives hsilent
  refine ⟨(Machine.after_add ..).trans harrives, .of_parts (fun j hpos hj => ?_) (fun j hj => ?_)
    harrives, ?_⟩
  · obtain ⟨j, rfl⟩ : ∃ d, j = 1 + d := Nat.exists_eq_add_of_le hpos
    obtain ⟨hbusy, hlength⟩ := (hleads j (by omega)).busy
    rwa [← hlength] at hbusy
  · rcases Nat.eq_zero_or_pos j with rfl | hpos
    · obtain ⟨hbusy, hlength⟩ := (hleads i (Nat.le_refl i)).busy
      rwa [← hlength] at hbusy
    · exact hsilent.busy j hpos hj
  · rw [Machine.startsOf_add, Machine.startsOf_eq_nil hsilent.starts, List.append_nil]
    refine Machine.startsOf_congr fun j hj => ?_
    rcases Nat.eq_zero_or_pos j with rfl | hpos
    · rfl
    · obtain ⟨j, rfl⟩ : ∃ d, j = 1 + d := Nat.exists_eq_add_of_le hpos
      exact (hleads j (by omega)).start? c

/-- The advance from the stop on answers, having started the same callbacks since. -/
theorem answers_rest {q : Machine σ β κ} {base : List (Layer β κ)} {n : Nat}
    (h : Stopping client c stop (stop + more) count stage base m ran y)
    (hmanual : y.config.clock = .manual)
    (hq : q = (m.setClock c stop).busyWith base (.deliver (.count (count + ran))))
    (hexists : ∀ i, i < n → ((m.step client).after client i).world.context? c ≠ none)
    (hbusy : ∀ i, i < n → base.length < ((m.step client).after client i).stack.length)
    (hend : ((m.step client).after client n).stack = base) :
    ∃ n₂, ((m.step client).after client n).control = .deliver (.count (count + ran + n₂)) ∧
      (q.asking (.advance c more)).after client (3 + n) =
        ((m.step client).after client n).busyWith base (.deliver (.count n₂)) ∧
      q.Answers client (.advance c more) (.count n₂) (3 + n) ∧
      (q.asking (.advance c more)).startsOf client c (3 + n) =
        (m.step client).startsOf client c n := by
  have hasking : q.asking (.advance c more) =
      (m.setClock c stop).busyWith base (.perform (.advance c more)) := by
    rw [hq]
    rfl
  have hstack : q.stack = base := by
    rw [hq]
    rfl
  clear hq
  subst hstack
  obtain ⟨hsilent, stage', hs, hdeparts⟩ := h.departs hmanual
  rw [← hasking] at hsilent hdeparts
  have htrails : Trails c (stop + more) (count + ran) q.stack (m.step client)
      ((q.asking (.advance c more)).after client 3) := .of [] 0 stage' hs hdeparts
  obtain ⟨⟨n₂, hm, hafter⟩, htrails⟩ := htrails.run hexists hbusy hend
  refine ⟨n₂, hm, (Machine.after_add ..).trans hafter,
    .of_parts hsilent.busy (fun i hi => ?_) hafter, ?_⟩
  · rw [(htrails i hi).busy.2]
    exact hbusy i hi
  · rw [Machine.startsOf_add, Machine.startsOf_eq_nil hsilent.starts, List.nil_append]
    exact Machine.startsOf_congr fun i hi => (htrails i hi).start? c

end Stopping

/-- An advance that answers has been about to go beyond any time up to its target, after having done
what an advance to that time does. -/
theorem stopping_of_answers (hreach : Reachable client m) (hx : m.world.context? c = some x)
    (hmanual : x.config.clock = .manual) {a b n : Nat} {reply : Reply β}
    (hanswers : m.Answers client (.advance c (a + b)) reply (1 + n))
    (hkept : ∀ i, i ≤ 1 + n →
      ((m.asking (.advance c (a + b))).after client i).Keeps client c m.stack)
    (hquiet : ∀ i, 0 < i → i < 1 + n → ∀ command,
      ((m.asking (.advance c (a + b))).after client i).asked = some command →
        command.movesClock c = false) :
    ∃ i count stage ran y, i < n ∧
      Stopping client c (x.now + a) (x.now + a + b) count stage m.stack
        ((m.asking (.advance c (a + b))).after client (1 + i)) ran y ∧
      y.config.clock = .manual ∧
      (∀ j, j ≤ i → Leads client c (x.now + a) (x.now + a + b) m.stack
        ((m.asking (.advance c (a + b))).after client (1 + j))
        ((m.asking (.advance c a)).after client (1 + j))) ∧
      (m.asking (.advance c a)).after client (1 + i) =
        ((m.asking (.advance c (a + b))).after client (1 + i)).busyWith
          (.operation (.advance c (x.now + a) count stage) :: m.stack)
          ((m.asking (.advance c (a + b))).after client (1 + i)).control := by
  have manual (i : Nat) : ∃ t,
      ((m.asking (.advance c (a + b))).after client i).world.timetable? c = some t ∧
        t.config.clock = .manual := by
    obtain ⟨t, ht, hconfig⟩ := config_asking client hx (.advance c (a + b)) i
    exact ⟨t, ht, hconfig ▸ hmanual⟩
  have hrun := (leads_of_asking client hx hmanual a b).run (n := n) (Nat.le_add_right _ _)
  simp only [Machine.after_step] at hrun
  obtain ⟨i, hi, hleads, count, stage, ran, y, hunder, hpoised, hq⟩ := hrun
    (fun i _ => hreach.desk_asking _ _) (fun i _ => manual (1 + i))
    (fun i hi command hc => by
      rcases Nat.lt_or_eq_of_le hi with hlt | rfl
      · exact hquiet (1 + (i + 1)) (by omega) (by omega) command hc
      · -- in the end a reply is delivered
        unfold Machine.asked at hc
        rw [hanswers.control] at hc
        cases hc)
    hanswers.stack
  obtain ⟨t, ht, hclock⟩ := manual (1 + i)
  cases (World.timetable?_eq hpoised.context).symm.trans ht
  exact ⟨i, count, stage, ran, y, hi, .of_underway hunder hpoised (hkept (1 + i) (by omega)), hclock,
    hleads, hq⟩

/-- **Advances are additive.** Let an advance by `a + b` be answered, in a state of which the context
has a manual clock, while its caller holds the context throughout (`hkept`) and no callback moves the
clock of the context, by an advance or by running a loop (`hquiet`). Then an advance by `a` instead is
answered, and so is one by `b` after it; they start the same callbacks in the same order and at the
same times, their answers add up to the single one, and they leave the state that it leaves. -/
theorem advances_additive (client : Client σ β κ) (m : Machine σ β κ) (hreach : Reachable client m)
    (c : ContextId) (x : MainContext β) (hx : m.world.context? c = some x)
    (hmanual : x.config.clock = .manual) (a b k : Nat) (reply : Reply β)
    (hanswers : m.Answers client (.advance c (a + b)) reply k)
    (hkept : ∀ i, i ≤ k →
      ((m.asking (.advance c (a + b))).after client i).Keeps client c m.stack)
    (hquiet : ∀ i, 0 < i → i < k → ∀ command,
      ((m.asking (.advance c (a + b))).after client i).asked = some command →
        command.movesClock c = false) :
    ∃ i n₁ j n₂,
      let mid := (m.asking (.advance c a)).after client i
      m.Answers client (.advance c a) (.count n₁) i ∧
      mid.Answers client (.advance c b) (.count n₂) j ∧
      reply = .count (n₁ + n₂) ∧
      (mid.asking (.advance c b)).after client j =
        { (m.asking (.advance c (a + b))).after client k with control := .deliver (.count n₂) } ∧
      (m.asking (.advance c (a + b))).startsOf client c k =
        (m.asking (.advance c a)).startsOf client c i ++
          (mid.asking (.advance c b)).startsOf client c j := by
  obtain ⟨n, rfl⟩ : ∃ n, k = 1 + n := by
    refine Nat.exists_eq_add_of_le (Nat.one_le_iff_ne_zero.mpr ?_)
    rintro rfl
    cases hanswers.control
  -- up to the stop, both advances do the same
  obtain ⟨i, count, stage, ran, y, hi, hstopping, hclock, hleads, hq⟩ :=
    stopping_of_answers hreach hx hmanual hanswers hkept hquiet
  obtain ⟨hmid, hfirst, hstarts⟩ := hstopping.answers hleads hq
  -- from there on, the second one does what is left of the single one
  obtain ⟨rest, rfl⟩ := Nat.exists_eq_add_of_lt hi
  rw [show 1 + (i + rest + 1) = 1 + i + (1 + rest) by omega] at hanswers ⊢
  have hrest := hstopping.answers_rest (n := rest) hclock hmid
  have hafter (j : Nat) : (((m.asking (.advance c (a + b))).after client (1 + i)).step client).after
      client j = (m.asking (.advance c (a + b))).after client (1 + i + (1 + j)) := by
    rw [Machine.after_step, ← Machine.after_add]
  simp only [hafter] at hrest
  obtain ⟨n₂, hm, hend, hsecond, hrest_starts⟩ := hrest
    (fun j _ => by
      obtain ⟨t, ht, -⟩ := config_asking client hx (.advance c (a + b)) (1 + i + (1 + j))
      intro hnone
      cases (World.timetable?_eq_none.mpr hnone).symm.trans ht)
    (fun j hj => hanswers.busy _ (by omega) (by omega)) hanswers.stack
  refine ⟨1 + i + 3, count + ran, 3 + rest, n₂, hfirst, hsecond, ?_, ?_, ?_⟩
  · exact Control.deliver.inj (hanswers.control.symm.trans hm)
  · rw [hend, Machine.busyWith, ← hanswers.stack]
  · rw [hstarts, hrest_starts, Machine.startsOf_add, Machine.startsOf_of_deliver hstopping.heard]

/-- A program that keeps its context and advances it. The callback of a repeating timeout attaches
another timeout each time, which runs once. -/
def pacer : Client Unit Nat (Routine Nat) :=
  .ofRoutines
    (fun
      | 0 => { acts := [.command (.newContext { clock := .manual }),
          .command (.addTimeout ⟨0⟩ .standard 5 false 1), .command (.advance ⟨0⟩ 10)] }
      | 1 => { acts := [.command (.addTimeout ⟨0⟩ .standard 3 true 2)], outcome := .flow true }
      | _ => { outcome := .flow false })
    [.context ⟨0⟩]

/-- The program `pacer` when it is about to advance its context. -/
def pacerAtAdvance : Machine Unit Nat (Routine Nat) :=
  (Machine.initial () 0).after pacer 6

/-- A stop at the first deadline of `pacer`, at which a timeout is attached, splits its advance. -/
theorem advances_additive_pacer :
    pacerAtAdvance.Answers pacer (.advance ⟨0⟩ (5 + 5)) (.count 3) 39 ∧
      ((pacerAtAdvance.asking (.advance ⟨0⟩ (5 + 5))).startsOf pacer ⟨0⟩ 39).map Prod.snd =
        [5, 8, 10] ∧
      ∃ i n₁ j n₂,
        let mid := (pacerAtAdvance.asking (.advance ⟨0⟩ 5)).after pacer i
        pacerAtAdvance.Answers pacer (.advance ⟨0⟩ 5) (.count n₁) i ∧
        mid.Answers pacer (.advance ⟨0⟩ 5) (.count n₂) j ∧ n₁ + n₂ = 3 ∧
        ((mid.asking (.advance ⟨0⟩ 5)).after pacer j).world =
          ((pacerAtAdvance.asking (.advance ⟨0⟩ (5 + 5))).after pacer 39).world := by
  have hmanual : (pacerAtAdvance.world.context? ⟨0⟩).map (·.config.clock) = some .manual := by cbv
  obtain ⟨x, hx, hclock⟩ := Option.map_eq_some_iff.mp hmanual
  -- until the advance is answered there is more on the stack, and no callback moves the clock
  have hrun : ((pacerAtAdvance.asking (.advance ⟨0⟩ (5 + 5))).step pacer).throughout pacer
      (fun m => decide (1 < m.stack.length) &&
        (m.asked.map (!·.movesClock ⟨0⟩)).getD true) 38 = true := by cbv
  have hlength : pacerAtAdvance.stack.length = 1 := by cbv
  have hend : ((pacerAtAdvance.asking (.advance ⟨0⟩ (5 + 5))).after pacer 39).stack.length = 1 := by
    cbv
  have hcount : ((pacerAtAdvance.asking (.advance ⟨0⟩ (5 + 5))).after pacer 39).control =
      .deliver (.count 3) := by cbv
  have hduring (i : Nat) (hpos : 0 < i) (hi : i < 39) :
      1 < ((pacerAtAdvance.asking (.advance ⟨0⟩ (5 + 5))).after pacer i).stack.length ∧
        ∀ command, ((pacerAtAdvance.asking (.advance ⟨0⟩ (5 + 5))).after pacer i).asked =
          some command → command.movesClock ⟨0⟩ = false := by
    obtain ⟨i, rfl⟩ : ∃ d, i = 1 + d := Nat.exists_eq_add_of_le hpos
    have hcheck := Machine.throughout_iff.mp hrun i (by omega)
    rw [Machine.after_step, Bool.and_eq_true, decide_eq_true_eq] at hcheck
    refine ⟨hcheck.1, fun command hc => ?_⟩
    have hmoves := hcheck.2
    rw [hc] at hmoves
    simpa using hmoves
  have hanswers : pacerAtAdvance.Answers pacer (.advance ⟨0⟩ (5 + 5)) (.count 3) 39 := by
    refine .of_length (fun i hpos hi => ?_) (hend.trans hlength.symm) hcount
    rw [hlength]
    exact (hduring i hpos hi).1
  obtain ⟨i, n₁, j, n₂, hfirst, hsecond, hsum, hend, -⟩ :=
    advances_additive pacer pacerAtAdvance ((Reachable.initial () 0).after 6) ⟨0⟩ x hx hclock 5 5 39
      (.count 3) hanswers (fun i _ => .of_kept (List.mem_singleton_self _))
      fun i hpos hi => (hduring i hpos hi).2
  refine ⟨hanswers, by cbv, i, n₁, j, n₂, hfirst, hsecond, (Reply.count.inj hsum).symm, ?_⟩
  rw [hend]

end Additivity

end ObjectSystem
