import Mathlib
import ObjectSystem.Proofs.Additivity
import ObjectSystem.Proofs.Conclusions
import ObjectSystem.Proofs.Pacing

/-!
# Repeating timeouts do not drift

If the callbacks of all sources of a manual context only return flows, an advance serves each of
their progressions of deadlines, merged in the order of time, priority and attachment, up to its
target and no further (`timeouts_do_not_drift`). A stride of the clock goes to the least deadline
(`Reaches.stride_cases`), the run until idle there makes one iteration, and nothing is due at a time
in between (`Reaches.advance`).

What an advance answers is the number of times at which it has served timeouts, and one more if a
pass over the tasks had been asked for before, even if no task is left for it
(`leftover_wake_is_counted`).
-/

namespace ObjectSystem

variable {σ β κ : Type}

open Machine (Reachable)
open Source (remaining Precedes)

namespace Pace

section
variable {r : Pace σ β κ} {n : Nat} {x : MainContext β} {l : List Start}
  {stack : List (Layer β κ)}

/-- A step of an advance that sets the clock. -/
theorem Reaches.stride (h : r.Reaches n x l) {target count ran : Nat} {stage : AdvanceStage}
    (hs : (r.state n).stack = .operation (.advance r.context target count stage) :: stack)
    (hm : (r.state n).control = .deliver (.count ran)) (hstage : stage ≠ .after)
    (hran : stage = .within → 0 < ran) (hheight : r.height ≤ stack.length) :
    r.Reaches (n + 1) { x with now := (x.stride target).1 } l ∧
      (r.state (n + 1)).stack =
        .operation (.advance r.context target (count + ran) (x.stride target).2) :: stack ∧
      (r.state (n + 1)).control = .perform (.runUntilIdle r.context) :=
  h.resume hs hm hheight rfl (World.continueAdvance_eq h.context target count hstage hran)
    (World.context?_setTime h.context _) rfl rfl h.taskless

/-- The clock goes to the least deadline up to the target, or to the target. -/
theorem Reaches.stride_cases (h : r.Reaches n x l) (hahead : ∀ s ∈ x.sources, x.now < s.readyAt)
    (target : Nat) :
    (∃ s ∈ x.sources, s.readyAt ≤ target ∧ x.stride target = (s.readyAt, .within) ∧
      x.nextDeadline = some s.readyAt ∧ ∀ q ∈ x.sources, s.readyAt ≤ q.readyAt) ∨
    x.stride target = (target, .after) ∧ ∀ s ∈ x.sources, target < s.readyAt := by
  have hnodup := h.sound.nodup
  have harmed := (h.poised hahead).armed
  cases hnext : x.nextDeadline with
  | none =>
      refine .inr ⟨MainContext.stride_of_none_due (by simp [hnext]), fun s hs => ?_⟩
      exact absurd (harmed s hs) (MainContext.not_armed_of_nextDeadline hnodup hnext hs)
  | some deadline =>
      obtain ⟨⟨s, hs, -, rfl⟩, hleast⟩ := MainContext.nextDeadline_spec hnodup hnext
      have hleast : ∀ q ∈ x.sources, s.readyAt ≤ q.readyAt := fun q hq => hleast q hq (harmed q hq)
      rcases Nat.lt_or_ge target s.readyAt with hlt | hle
      · refine .inr ⟨MainContext.stride_of_none_due fun deadline hdeadline => ?_, fun q hq => ?_⟩
        · obtain rfl := Option.some.inj (hnext.symm.trans hdeadline)
          exact hlt
        · exact Nat.lt_of_lt_of_le hlt (hleast q hq)
      · refine .inl ⟨s, hs, hle, ?_, rfl, hleast⟩
        rw [MainContext.stride_of_due hnext hle, Nat.max_eq_right (Nat.le_of_lt (hahead s hs))]

/-- At a time up to which no deadline is missed, what is due has not started yet. -/
theorem Reaches.poised_at (h : r.Reaches n x l) (hahead : ∀ s ∈ x.sources, x.now < s.readyAt)
    (hupto : ∀ a ∈ l, a.time ≤ x.now) {time : Nat} (hdue : ∀ s ∈ x.sources, time ≤ s.readyAt) :
    Poised { x with now := time } l where
  due := hdue
  armed := (h.poised hahead).armed
  before s hs hready a ha :=
    Nat.lt_of_le_of_lt (hupto a ha) (Nat.lt_of_lt_of_eq (hahead s hs) hready)

/-- **An advance** that has served what was due serves all deadlines up to its target. What it
answers grows by one with each time at which something starts. -/
theorem Reaches.advance (h : r.Reaches n x l) (hahead : ∀ s ∈ x.sources, x.now < s.readyAt)
    (hready : x.tasksReady = false) (hupto : ∀ a ∈ l, a.time ≤ x.now)
    {target count ran : Nat} {stage : AdvanceStage} (hnow : x.now ≤ target)
    (hs : (r.state n).stack = .operation (.advance r.context target count stage) :: stack)
    (hm : (r.state n).control = .deliver (.count ran)) (hstage : stage ≠ .after)
    (hran : stage = .within → 0 < ran) (hheight : r.height ≤ stack.length) :
    ∃ k y l' total, r.Reaches k y l' ∧ y.now = target ∧ (∀ s ∈ y.sources, target < s.readyAt) ∧
      (∀ a ∈ l', a.time ≤ target) ∧ total + Start.times l = count + ran + Start.times l' ∧
      (r.state k).stack = stack ∧ (r.state k).control = .deliver (.count total) := by
  induction hleft : target - x.now using Nat.strongRecOn generalizing n x l count ran stage with
  | ind left ih =>
  obtain ⟨h₁, hs₁, hm₁⟩ := h.stride hs hm hstage hran hheight
  have hbusy : r.height < (r.state (n + 1)).stack.length :=
    hs₁ ▸ Nat.lt_succ_of_le hheight
  rcases h.stride_cases hahead target with
    ⟨s, hsource, hle, hstride, hnext, hleast⟩ | ⟨hstride, hbeyond⟩
  · -- the timeouts with the least deadline are served there
    rw [hstride] at h₁ hs₁
    have hlater := hahead s hsource
    have hpoised := h.poised_at hahead hupto hleast
    have hpending : ({ x with now := s.readyAt } : MainContext β).pending = true := by
      have hat := MainContext.pending_at_deadline hnext
      rwa [Nat.max_eq_right (Nat.le_of_lt hlater)] at hat
    obtain ⟨k, y, new, hreaches, hserved, htasks, hs₂, hm₂⟩ :=
      h₁.runUntilIdle hpoised hm₁ hbusy
    rw [hpending] at hm₂
    have hsome : new ≠ [] := by
      rintro rfl
      have hcollected := h₁.mem_ready hpoised hsource rfl
      rw [← hserved.ids] at hcollected
      cases hcollected
    have htimes : Start.times (l ++ new) = Start.times l + 1 :=
      Start.times_append (fun a ha => Nat.lt_of_le_of_lt (hupto a ha) hlater) hserved.times hsome
    have hnow' : y.now = s.readyAt := hserved.now
    have hupto' : ∀ a ∈ l ++ new, a.time ≤ y.now := fun a ha => by
      rw [hnow']
      rcases List.mem_append.mp ha with ha | ha
      · exact Nat.le_of_lt (Nat.lt_of_le_of_lt (hupto a ha) hlater)
      · exact Nat.le_of_eq (hserved.times a ha)
    obtain ⟨k', z, l', total, hdone, hz, hbeyond, hend, htotal, hends⟩ :=
      ih (target - y.now) (by omega) hreaches hserved.ahead htasks hupto' (hnow'.symm ▸ hle)
        (hs₂.trans hs₁) hm₂ (by nofun) (fun _ => Nat.one_pos) rfl
    rw [Bool.toNat_true] at htotal
    exact ⟨k', z, l', total, hdone, hz, hbeyond, hend, by omega, hends⟩
  · -- at the target nothing is due
    rw [hstride] at h₁ hs₁
    have hpoised := h.poised_at hahead hupto fun q hq => Nat.le_of_lt (hbeyond q hq)
    obtain ⟨k, y, new, hreaches, hserved, -, hs₂, hm₂⟩ := h₁.runUntilIdle hpoised hm₁ hbusy
    rw [(h₁.pending_of_ahead hbeyond).trans hready] at hm₂
    rw [hserved.eq_nil (h₁.ready_of_ahead hbeyond), List.append_nil] at hreaches
    obtain ⟨h₃, hs₃, hm₃⟩ := hreaches.resume (hs₂.trans hs₁) hm₂ hheight rfl
      (p := .reply (r.state k).world (.count (count + ran + 0))) rfl hreaches.context rfl rfl
      hreaches.taskless
    have hnow' : y.now = target := hserved.now
    exact ⟨k + 1, y, l, count + ran + 0, h₃, hnow', hnow' ▸ hserved.ahead,
      fun a ha => Nat.le_trans (hupto a ha) hnow, rfl, hs₃, hm₃⟩

end

end Pace

/-! ## The main result -/

/-- A timeout that does not run, with its next deadline ahead, whose callback only returns a flow.
An idle source has no delay. -/
structure Client.Paces (client : Client σ β κ) (c : ContextId) (now : Nat) (s : Source β) :
    Prop where
  still : s.running = false
  pos : 0 < s.kind.delay
  ahead : now < s.readyAt
  work : ∃ callback, s.work = .repeating callback ∧ client.OnlyFlows c s.id callback

/-- **Repeating timeouts do not drift.** On a manual clock, without tasks, with timeouts of any
number, priority and interval as the only sources, whose callbacks only return flows, an advance
returns. The callbacks that start until then are exactly those of the sources at the times of their
progressions up to the target, unless the callback has asked not to stay before; they start in the
order of time, priority and attachment, when the clock shows that time. In the end the clock is at
the target, and the sources that are left are those that have always asked to stay, each with its
next deadline, which is beyond the target. The answer is the number of times at which something has
started, and one more if a pass over the tasks was asked for. -/
theorem timeouts_do_not_drift (client : Client σ β κ) (m : Machine σ β κ)
    (hreach : Reachable client m) (c : ContextId) (x : MainContext β)
    (hx : m.world.context? c = some x) (hclock : x.config.clock = .manual)
    (htasks : x.heldTasks = []) (hsources : ∀ s ∈ x.sources, client.Paces c x.now s)
    (duration : Nat) (hm : m.control = .perform (.advance c duration)) :
    ∃ n y l, m.Answers client (.advance c duration)
        (.count (Start.times l + x.tasksReady.toNat)) n ∧
      m.log client (Machine.opening? c) n = l.map (fun a => (a.time, .source c a.id)) ∧
      m.log client (Machine.verdict? c) n = l.map (fun a => (a.id, a.stays)) ∧
      (∀ time id, (time, id) ∈ l.map (fun a => (a.time, a.id)) ↔ ∃ s ∈ x.sources, s.id = id ∧
        (∃ j, time = s.readyAt + j * s.kind.delay) ∧ time ≤ x.now + duration ∧
        ∀ a ∈ l, a.id = id → a.time < time → a.stays = true) ∧
      (l.map fun a => (a.time, a.id)).Pairwise (Precedes x.sources) ∧
      (m.after client n).world.context? c = some y ∧ y.now = x.now + duration ∧
      y.sources = remaining x.sources l ∧ ∀ s ∈ y.sources, x.now + duration < s.readyAt := by
  have hshows : Machine.Shows client c m x := ⟨hreach, hx, hclock, htasks⟩
  let r : Pace σ β κ :=
    { client, context := c, origin := m, sources := x.sources
      nodup := hshows.sound.nodup
      still := fun s hs => (hsources s hs).still
      pos := fun s hs => (hsources s hs).pos
      work := fun s hs => (hsources s hs).work }
  have h : r.Reaches 0 x [] := .zero hshows rfl
  have hahead : ∀ s ∈ x.sources, x.now < s.readyAt := fun s hs => (hsources s hs).ahead
  obtain ⟨h₁, hs₁, hm₁⟩ := h.perform hm (fun hpos => absurd hpos (Nat.lt_irrefl 0))
    (World.advance_eq_of_manual hx hclock) hx rfl rfl htasks
  -- at first at most a pass over the tasks is due
  obtain ⟨k, y, new, hreaches, hserved, hready, hs₂, hm₂⟩ :=
    h₁.runUntilIdle (h.poised hahead) hm₁ (hs₁ ▸ Nat.lt_succ_self _)
  rw [hserved.eq_nil (h.ready_of_ahead hahead), List.append_nil] at hreaches
  rw [h.pending_of_ahead hahead] at hm₂
  obtain ⟨n, z, l, total, hdone, hnow, hbeyond, hupto, htotal, hs₃, hm₃⟩ :=
    hreaches.advance hserved.ahead hready (fun a ha => (by cases ha))
      (hserved.now.symm ▸ Nat.le_add_right x.now duration) (hs₂.trans hs₁) hm₂ (by decide)
      (fun hc => by cases hc) (Nat.le_refl _)
  have hcount : total = Start.times l + x.tasksReady.toNat := by
    have hzero : Start.times [] = 0 := rfl
    omega
  refine ⟨n, z, l, .of_perform hm hdone.busy (congrArg List.length hs₃) (hcount ▸ hm₃),
    hdone.openings, hdone.verdicts, ?_, hdone.schedule.ordered, hdone.context, hnow, hdone.sources,
    hbeyond⟩
  exact hdone.schedule.mem_iff r.nodup r.pos hupto (hdone.sources ▸ hbeyond)

/-- That a command is answered can be seen from the states until then. -/
theorem Machine.Answers.of_throughout {client : Client σ β κ} {m : Machine σ β κ}
    {command : Command β} {reply : Reply β} {height k : Nat}
    (hm : m.control = .perform command) (hheight : m.stack.length = height)
    (hbusy : (m.step client).throughout client (fun m => decide (height < m.stack.length)) k = true)
    (hlength : (m.after client (k + 1)).stack.length = height)
    (hcontrol : (m.after client (k + 1)).control = .deliver reply) :
    m.Answers client command reply (k + 1) := by
  refine .of_perform hm (fun i hpos hi => ?_) (hlength.trans hheight.symm) hcontrol
  obtain ⟨i, rfl⟩ := Nat.exists_eq_succ_of_ne_zero (Nat.ne_of_gt hpos)
  have hhigh := of_decide_eq_true (Machine.throughout_iff.mp hbusy i (Nat.lt_of_succ_lt_succ hi))
  rw [Machine.after_succ] at hhigh
  exact hheight ▸ hhigh

/-- A callback of fixed behaviour that does nothing but return a flow. -/
theorem Client.onlyFlows_ofRoutines {routines : β → Routine β} {kept : List Handle} {callback : β}
    {stays : Bool} (h : routines callback = { outcome := .flow stays }) (c : ContextId)
    (id : SourceId) : (Client.ofRoutines routines kept).OnlyFlows c id callback := by
  intro w v state
  refine ⟨state, stays, ?_⟩
  simp [Client.ofRoutines, h]

/-- A program with two timeouts, of which one stays and the other, of a higher priority, does
not. -/
def metronome : Client Unit Nat (Routine Nat) :=
  .ofRoutines
    (fun
      | 0 => { acts := [.command (.newContext { clock := .manual }),
          .command (.addTimeout ⟨0⟩ .standard 5 false 1),
          .command (.addTimeout ⟨0⟩ .high 10 false 2), .command (.advance ⟨0⟩ 20)] }
      | 1 => { outcome := .flow true }
      | _ => { outcome := .flow false })
    []

/-- The state in which `metronome` asks for the advance of the clock. -/
def metronomeStart : Machine Unit Nat (Routine Nat) :=
  (Machine.initial () 0).after metronome 8

set_option maxRecDepth 100000 in
/-- What the run of `metronome` comes to. -/
theorem metronome_runs :
    metronomeStart.control = .perform (.advance ⟨0⟩ 20) ∧
    (metronomeStart.world.context? ⟨0⟩).map
      (fun x => (x.config.clock, x.heldTasks, x.sources, x.now, x.tasksReady)) =
        some (.manual, [],
          [{ id := ⟨0⟩, kind := .timeout 5, priority := .standard, readyAt := 5,
              work := .repeating 1 },
            { id := ⟨1⟩, kind := .timeout 10, priority := .high, readyAt := 10,
              work := .repeating 2 }], 0, false) ∧
    metronomeStart.stack.length = 1 ∧
    (metronomeStart.step metronome).throughout metronome
      (fun m => decide (1 < m.stack.length)) 48 = true ∧
    (metronomeStart.after metronome 49).stack.length = 1 ∧
    (metronomeStart.after metronome 49).control = .deliver (.count 4) ∧
    metronomeStart.log metronome (Machine.opening? ⟨0⟩) 49 =
      [(5, .source ⟨0⟩ ⟨0⟩), (10, .source ⟨0⟩ ⟨1⟩), (10, .source ⟨0⟩ ⟨0⟩), (15, .source ⟨0⟩ ⟨0⟩),
        (20, .source ⟨0⟩ ⟨0⟩)] := by
  cbv

/-- The advance of `metronome` serves four times, one of them twice. -/
theorem timeouts_do_not_drift_metronome :
    ∃ y l, metronomeStart.Answers metronome (.advance ⟨0⟩ 20) (.count (Start.times l)) 49 ∧
      l.map (fun a => (a.time, Role.source ⟨0⟩ a.id)) =
        [(5, .source ⟨0⟩ ⟨0⟩), (10, .source ⟨0⟩ ⟨1⟩), (10, .source ⟨0⟩ ⟨0⟩), (15, .source ⟨0⟩ ⟨0⟩),
          (20, .source ⟨0⟩ ⟨0⟩)] ∧
      (metronomeStart.after metronome 49).world.context? ⟨0⟩ = some y ∧ y.now = 20 ∧
      ∀ s ∈ y.sources, 20 < s.readyAt := by
  obtain ⟨hm, hcontext, hheight, hbusy, hover, hreply, hlog⟩ := metronome_runs
  obtain ⟨x, hx, hfields⟩ := Option.map_eq_some_iff.mp hcontext
  simp only [Prod.mk.injEq] at hfields
  obtain ⟨hclock, htasks, hattached, hnow, hready⟩ := hfields
  have hsources : ∀ s ∈ x.sources, metronome.Paces ⟨0⟩ x.now s := by
    rw [hattached, hnow]
    simp only [List.mem_cons, List.not_mem_nil, or_false]
    rintro s (rfl | rfl)
    · exact ⟨rfl, by decide, by decide, 1, rfl, Client.onlyFlows_ofRoutines rfl _ _⟩
    · exact ⟨rfl, by decide, by decide, 2, rfl, Client.onlyFlows_ofRoutines rfl _ _⟩
  obtain ⟨n, y, l, hanswers, hopened, -, -, -, hy, htime, -, hbeyond⟩ :=
    timeouts_do_not_drift metronome metronomeStart ((Reachable.initial () 0).after 8) ⟨0⟩ x hx
      hclock htasks hsources 20 hm
  have hdone : metronomeStart.Answers metronome (.advance ⟨0⟩ 20) (.count 4) 49 :=
    .of_throughout hm hheight hbusy hover hreply
  obtain ⟨-, rfl⟩ := hanswers.unique hdone
  rw [hready, Bool.toNat_false, Nat.add_zero] at hanswers
  rw [hnow] at htime hbeyond
  exact ⟨y, l, hanswers, hopened.symm.trans hlog, hy, htime, hbeyond⟩

/-- A program in which a task waits for an event that another task settles later in the same pass:
both tasks finish, and another pass is asked for. -/
def restless : Client Unit Nat (Routine Nat) :=
  .ofRoutines
    (fun
      | 0 => { acts := [.command (.newContext { clock := .manual }),
          .command (.construct { ofClass := .simple .empty [] none, context := ⟨0⟩ }),
          .command (.awaitEvent ⟨1⟩ "notify::done" none),
          .command (.spawn ⟨0⟩ 1), .command (.spawn ⟨0⟩ 2), .command (.iterate ⟨0⟩),
          .command (.addTimeout ⟨0⟩ .standard 5 false 3), .command (.advance ⟨0⟩ 10)] }
      | 1 => { acts := [.await ⟨0⟩] }
      | 2 => { acts := [.command (.emit ⟨1⟩ "notify::done" [.string "done"])] }
      | _ => { outcome := .flow true })
    [.object ⟨1⟩, .event ⟨0⟩]

/-- The state in which `restless` asks for the advance of the clock. -/
def restlessStart : Machine Unit Nat (Routine Nat) :=
  (Machine.initial () 0).after restless 36

set_option maxRecDepth 100000 in
/-- What the run of `restless` comes to. -/
theorem restless_runs :
    restlessStart.control = .perform (.advance ⟨0⟩ 10) ∧
    (restlessStart.world.context? ⟨0⟩).map
      (fun x => (x.config.clock, x.heldTasks, x.sources, x.now)) =
        some (.manual, [],
          [{ id := ⟨0⟩, kind := .timeout 5, priority := .standard, readyAt := 5,
              work := .repeating 3 }], 0) ∧
    restlessStart.stack.length = 1 ∧
    (restlessStart.step restless).throughout restless
      (fun m => decide (1 < m.stack.length)) 29 = true ∧
    (restlessStart.after restless 30).stack.length = 1 ∧
    (restlessStart.after restless 30).control = .deliver (.count 3) ∧
    restlessStart.log restless (Machine.opening? ⟨0⟩) 30 =
      [(5, .source ⟨0⟩ ⟨0⟩), (10, .source ⟨0⟩ ⟨0⟩)] := by
  cbv

/-- An advance that serves two times answers three: the pass over no tasks that was asked for has
been counted as an iteration. -/
theorem leftover_wake_is_counted :
    ∃ x, Reachable restless restlessStart ∧ restlessStart.world.context? ⟨0⟩ = some x ∧
      x.config.clock = .manual ∧ x.heldTasks = [] ∧
      (∀ s ∈ x.sources, restless.Paces ⟨0⟩ x.now s) ∧
      restlessStart.control = .perform (.advance ⟨0⟩ 10) ∧
      restlessStart.Answers restless (.advance ⟨0⟩ 10) (.count 3) 30 ∧
      restlessStart.log restless (Machine.opening? ⟨0⟩) 30 =
        [(5, .source ⟨0⟩ ⟨0⟩), (10, .source ⟨0⟩ ⟨0⟩)] := by
  obtain ⟨hm, hcontext, hheight, hbusy, hover, hreply, hlog⟩ := restless_runs
  obtain ⟨x, hx, hfields⟩ := Option.map_eq_some_iff.mp hcontext
  simp only [Prod.mk.injEq] at hfields
  obtain ⟨hclock, htasks, hattached, hnow⟩ := hfields
  refine ⟨x, (Reachable.initial () 0).after 36, hx, hclock, htasks, fun s hs => ?_, hm,
    .of_throughout hm hheight hbusy hover hreply, hlog⟩
  rw [hattached, List.mem_singleton] at hs
  subst hs
  refine ⟨rfl, by decide, ?_, 3, rfl, Client.onlyFlows_ofRoutines rfl _ _⟩
  rw [hnow]
  decide

end ObjectSystem
