import ObjectSystem.Proofs.Loops
import ObjectSystem.Proofs.Rounds

/-!
# Runs that spend their sources

If the callbacks of all sources count down, a run of a loop ends (`run_spends_sources`). Three loops
are nested there: the loop iterates and advances the clock, an advance runs until idle, and a run
until idle iterates. All of them take from the same measure: an iteration in which something was
pending leaves less owed, and so does an advance, as it launches the timeout that the next deadline
belongs to (`AtRest.advance`). When neither is left, the loop stops, and a source that is still
attached would be pending or have a deadline (`AtRest.sources_eq_nil`).

A `Lap` is a leg after which the clock shows the last deadline that was served.
-/

namespace ObjectSystem

variable {σ β κ : Type}

open Machine (Reachable marks)

namespace Stint

section
variable {r : Stint σ β κ} {m : Machine σ β κ} {a b d : Ledger β} {stack : List (Layer β κ)}
  {j k n : Nat}

/-! ## Advances to the next deadline -/

/-- Some steps of the run after which the clock shows the last deadline that was served. -/
structure Lap (r : Stint σ β κ) (m : Machine σ β κ) (a : Ledger β) (n : Nat) (b : Ledger β) :
    Prop extends r.Leg m a n b where
  clock : b.context.now = (m.deadlines r.client r.context n).getLast?.getD a.context.now

theorem Lap.refl (h : r.AtRest m a) : r.Lap m a 0 a where
  busy i hi := absurd hi (Nat.not_lt_zero i)
  rest := h
  launches _ := Nat.zero_add _
  tasks := id
  clock := rfl

theorem Lap.trans (h : r.Lap m a j b) (g : r.Lap (m.after r.client j) b k d) :
    r.Lap m a (j + k) d where
  toLeg := h.toLeg.trans g.toLeg
  clock := by
    rw [g.clock, h.clock, Machine.deadlines_add, List.getLast?_append]
    cases ((m.after r.client j).deadlines r.client r.context k).getLast? <;> rfl

/-- All deadlines of a round are the time of the clock. -/
theorem Round.lap (h : r.Round m a n b) : r.Lap m a n b where
  toLeg := h.toLeg
  clock := by
    rw [h.now]
    cases hlast : (m.deadlines r.client r.context n).getLast? with
    | none => rfl
    | some deadline => exact (h.deadlines deadline (List.mem_of_getLast? hlast)).symm

/-- A step that sets the clock. -/
theorem AtRest.stride (h : r.AtRest m a) {target count ran : Nat} {stage : AdvanceStage}
    (hs : m.stack = .operation (.advance r.context target count stage) :: stack)
    (hm : m.control = .deliver (.count ran)) (hstage : stage ≠ .after)
    (hran : stage = .within → 0 < ran) (hheight : r.height ≤ stack.length) :
    r.Leg m a 1 ⟨{ a.context with now := (a.context.stride target).1 }, a.left⟩ ∧
      (m.step r.client).stack = .operation (.advance r.context target (count + ran)
        (a.context.stride target).2) :: stack ∧
      (m.step r.client).control = .perform (.runUntilIdle r.context) ∧
      m.deadlines r.client r.context 1 = [] := by
  have hadvance : m.advance r.client = m.follow r.client stack (.perform
      (m.world.setTime r.context (a.context.stride target).1) (.runUntilIdle r.context)
      [.advance r.context target (count + ran) (a.context.stride target).2]) := by
    rw [← World.continueAdvance_eq h.context target count hstage hran]
    exact Machine.advance_resume r.client hm hs
  have hlaunch := Machine.launch?_of_deliver (c := r.context) hm
  obtain ⟨hleg, hstack, hcontrol⟩ := h.quiet (by simp [hs]; omega) hlaunch hadvance rfl
    (World.context?_setTime h.context _) rfl ⟨rfl, rfl, h.taskless, id⟩
  exact ⟨hleg, hstack, hcontrol, (Machine.silent_of_launch? r.client hlaunch).2⟩

/-- An advance begins with a run until idle, for which there is nothing to do. -/
theorem AtRest.beginAdvance (h : r.AtRest m a) (hidle : a.context.pending = false)
    {duration : Nat} (hm : m.control = .perform (.advance r.context duration))
    (hbusy : r.height < m.stack.length) :
    ∃ n ran, r.Round m a n a ∧ (m.after r.client n).stack = .operation
        (.advance r.context (a.context.now + duration) 0 .before) :: m.stack ∧
      (m.after r.client n).control = .deliver (.count ran) := by
  have hadvance : m.advance r.client = m.follow r.client m.stack (.perform m.world
      (.runUntilIdle r.context) [.advance r.context (a.context.now + duration) 0 .before]) := by
    rw [Machine.advance_perform r.client hm]
    show m.follow r.client m.stack (m.world.advance r.context duration) = _
    simp [World.advance, h.context, h.manual]
  obtain ⟨hround, hs₁, hm₁⟩ := h.quietRound hbusy (Machine.launch?_of_perform hm) hadvance rfl
    h.context rfl (.refl h.taskless) rfl
  obtain ⟨n, b, ran, hdrained, -, hs₂, hm₂⟩ := hround.rest.runUntilIdle hm₁
    ((congrArg List.length hs₁).symm ▸ Nat.lt_succ_of_lt hbusy)
  obtain rfl := hdrained.same hidle
  refine ⟨1 + n, ran, hround.trans hdrained.toRound, ?_⟩
  rw [Machine.after_add]
  exact ⟨hs₂.trans hs₁, hm₂⟩

/-- A stride to the next deadline serves it. -/
theorem AtRest.reachDeadline (h : r.AtRest m a) {deadline target count ran : Nat}
    (hnext : a.context.nextDeadline = some deadline)
    (htarget : target = max a.context.now deadline)
    (hs : m.stack = .operation (.advance r.context target count .before) :: stack)
    (hm : m.control = .deliver (.count ran)) (hheight : r.height ≤ stack.length) :
    ∃ n b count ran, r.Lap m a n b ∧ b.context.now = target ∧ b.context.pending = false ∧
      m.deadlines r.client r.context n ≠ [] ∧ 0 < ran ∧
      (m.after r.client n).stack =
        .operation (.advance r.context target count .within) :: stack ∧
      (m.after r.client n).control = .deliver (.count ran) := by
  obtain ⟨hleg, hs₁, hm₁, hnone⟩ := h.stride hs hm (by decide) (fun hc => by cases hc) hheight
  have hstride : a.context.stride target = (target, .within) := by
    rw [MainContext.stride_of_due hnext (htarget ▸ Nat.le_max_right _ _), htarget]
  rw [hstride] at hleg hs₁
  obtain ⟨n, b, ran', hdrained, hran, hs₂, hm₂⟩ := hleg.rest.runUntilIdle hm₁
    ((congrArg List.length hs₁).symm ▸ Nat.lt_succ_of_le hheight)
  -- the timeout with that deadline is due
  obtain ⟨⟨s, hsource, harmed, hready⟩, -⟩ :=
    MainContext.nextDeadline_spec h.sound.nodup hnext
  have hserved : target ∈ (m.after r.client 1).deadlines r.client r.context n :=
    hdrained.due s hsource ⟨harmed, by rw [hready, htarget]; exact Nat.le_max_right _ _⟩
  have hdeadlines : m.deadlines r.client r.context (1 + n) =
      (m.after r.client 1).deadlines r.client r.context n := by
    rw [Machine.deadlines_add, hnone, List.nil_append]
  have hclock : b.context.now =
      ((m.after r.client 1).deadlines r.client r.context n).getLast?.getD a.context.now := by
    rw [List.getLast?_eq_some_getLast (List.ne_nil_of_mem hserved), Option.getD_some]
    exact hdrained.now.trans (hdrained.deadlines _ (List.getLast_mem _)).symm
  have hpending : ({ a.context with now := target } : MainContext β).pending = true :=
    htarget ▸ MainContext.pending_at_deadline hnext
  refine ⟨1 + n, b, count + ran, ran', ⟨hleg.trans hdrained.toLeg, hdeadlines ▸ hclock⟩,
    hdrained.now, hdrained.idle, hdeadlines ▸ List.ne_nil_of_mem hserved, ?_, ?_⟩
  · exact Nat.lt_of_lt_of_le (by rw [hpending]; decide) hran
  · rw [Machine.after_add]
    exact ⟨hs₂.trans hs₁, hm₂⟩

/-- Where nothing is pending at the target of an advance, the advance ends. -/
theorem AtRest.endAdvance (h : r.AtRest m a) (hidle : a.context.pending = false)
    {target count ran : Nat} (hnow : a.context.now = target)
    (hs : m.stack = .operation (.advance r.context target count .within) :: stack)
    (hm : m.control = .deliver (.count ran)) (hran : 0 < ran) (hheight : r.height ≤ stack.length) :
    ∃ n count, r.Round m a n a ∧ (m.after r.client n).stack = stack ∧
      (m.after r.client n).control = .deliver (.count count) := by
  obtain ⟨hleg, hs₁, hm₁, hnone⟩ := h.stride hs hm (by decide) (fun _ => hran) hheight
  have hstride : a.context.stride target = (target, .after) := by
    refine MainContext.stride_of_none_due fun deadline hnext => Nat.lt_of_not_le fun hle => ?_
    have hpending := MainContext.pending_at_deadline hnext
    rw [hnow, Nat.max_eq_left hle, ← hnow] at hpending
    cases hidle.symm.trans hpending
  rw [hstride, ← hnow] at hleg
  rw [hstride] at hs₁
  have hround : r.Round m a 1 a :=
    ⟨hleg, rfl, fun deadline hmem => by rw [hnone] at hmem; cases hmem⟩
  obtain ⟨n, b, ran', hdrained, -, hs₂, hm₂⟩ := hround.rest.runUntilIdle hm₁
    ((congrArg List.length hs₁).symm ▸ Nat.lt_succ_of_le hheight)
  obtain rfl := hdrained.same hidle
  obtain ⟨hlast, hs₃, hm₃⟩ := hdrained.rest.quietRound
    (by rw [hs₂]; exact (congrArg List.length hs₁).symm ▸ Nat.lt_succ_of_le hheight)
    (Machine.launch?_of_deliver hm₂)
    (Machine.advance_resume r.client hm₂ (hs₂.trans hs₁)) rfl hdrained.rest.context rfl
    (.refl h.taskless) rfl
  refine ⟨1 + (n + 1), count + ran + ran', hround.trans (hdrained.toRound.trans hlast), ?_⟩
  rw [Machine.after_add]
  exact ⟨hs₃, hm₃⟩

/-- **An advance to the next deadline** serves it. -/
theorem AtRest.advance (h : r.AtRest m a) (hidle : a.context.pending = false) {deadline : Nat}
    (hnext : a.context.nextDeadline = some deadline)
    (hm : m.control = .perform (.advance r.context (deadline - a.context.now)))
    (hbusy : r.height < m.stack.length) :
    ∃ n b count, r.Lap m a n b ∧ m.deadlines r.client r.context n ≠ [] ∧
      (m.after r.client n).stack = m.stack ∧
      (m.after r.client n).control = .deliver (.count count) := by
  obtain ⟨j, ran, hround, hs₁, hm₁⟩ := h.beginAdvance hidle hm hbusy
  obtain ⟨k, b, count, ran', hlap, hnow, hidle', hserved, hran, hs₂, hm₂⟩ :=
    hround.rest.reachDeadline hnext (by omega) hs₁ hm₁ (Nat.le_of_lt hbusy)
  obtain ⟨n, count', hlast, hs₃, hm₃⟩ :=
    hlap.rest.endAdvance hidle' hnow hs₂ hm₂ hran (Nat.le_of_lt hbusy)
  refine ⟨j + (k + n), b, count', hround.lap.trans (hlap.trans hlast.lap), ?_, ?_⟩
  · rw [Machine.deadlines_add, Machine.deadlines_add]
    simp [hserved]
  · rw [Machine.after_add, Machine.after_add]
    exact ⟨hs₃, hm₃⟩

/-! ## Runs of the loop -/

/-- A loop that runs makes an iteration. -/
theorem Tends.checkLoop {x : MainContext β} (h : r.Tends m x) : m.world.checkLoop r.loop =
    .perform m.world (.iterate r.context) [.looped r.loop] := by
  simp [World.checkLoop, h.running]

/-- With a deadline ahead, a loop advances the clock to it. -/
theorem Tends.continueLoop {x : MainContext β} (h : r.Tends m x) {deadline : Nat}
    (hnext : x.nextDeadline = some deadline) : m.world.continueLoop r.loop (.flag false) =
      .perform m.world (.advance r.context (deadline - x.now)) [.loop r.loop] := by
  simp [World.continueLoop, MainContext.timeUntilNext, h.running, h.context, hnext]

/-- With none and nothing pending, it stops. -/
theorem Tends.endLoop {x : MainContext β} (h : r.Tends m x) (hnone : x.nextDeadline = none)
    (hidle : x.pending = false) :
    m.world.continueLoop r.loop (.flag false) = m.world.endLoop r.loop := by
  simp [World.continueLoop, MainContext.timeUntilNext, h.running, h.context, hnone, hidle]

/-- After some steps of the run, an iteration has found nothing to do, and there is no deadline
ahead. -/
structure Finish (r : Stint σ β κ) (m : Machine σ β κ) (a : Ledger β) (stack : List (Layer β κ))
    (n : Nat) (b : Ledger β) : Prop extends r.Lap m a n b where
  layers : (m.after r.client n).stack = .operation (.looped r.loop) :: stack
  answered : (m.after r.client n).control = .deliver (.flag false)
  idle : b.context.pending = false
  spent : b.context.nextDeadline = none

theorem Lap.finish (h : r.Lap m a j b) (g : r.Finish (m.after r.client j) b stack k d) :
    r.Finish m a stack (j + k) d where
  toLap := h.trans g.toLap
  layers := by
    rw [Machine.after_add]
    exact g.layers
  answered := by
    rw [Machine.after_add]
    exact g.answered
  idle := g.idle
  spent := g.spent

/-- A loop whose iteration has found nothing to do serves the next deadline, and looks again. -/
theorem AtRest.toDeadline (h : r.AtRest m a) (hidle : a.context.pending = false) {deadline : Nat}
    (hnext : a.context.nextDeadline = some deadline)
    (hs : m.stack = .operation (.looped r.loop) :: stack) (hm : m.control = .deliver (.flag false))
    (hheight : r.height ≤ stack.length) :
    ∃ n b count, r.Lap m a n b ∧ r.owed b < r.owed a ∧
      (m.after r.client n).stack = .operation (.loop r.loop) :: stack ∧
      (m.after r.client n).control = .deliver (.count count) := by
  have hadvance := (Machine.advance_resume r.client hm hs).trans
    (congrArg _ (h.continueLoop hnext))
  obtain ⟨hround, hs₁, hm₁⟩ := h.quietRound (by simp [hs]; omega) (Machine.launch?_of_deliver hm)
    hadvance rfl h.context rfl (.refl h.taskless) rfl
  obtain ⟨n, b, count, hlap, hserved, hs₂, hm₂⟩ := hround.rest.advance hidle hnext hm₁
    ((congrArg List.length hs₁).symm ▸ Nat.lt_succ_of_le hheight)
  obtain ⟨id, hid⟩ := Machine.exists_launch hserved
  refine ⟨1 + n, b, count, hround.lap.trans hlap, hlap.owed_lt_of_launch hround.rest hid, ?_⟩
  rw [Machine.after_add]
  exact ⟨hs₂.trans hs₁, hm₂⟩

/-- **A run of the loop** comes to an end: what it does before leaves less to do. -/
theorem AtRest.run (h : r.AtRest m a)
    (hadvance : m.advance r.client = m.follow r.client stack (m.world.checkLoop r.loop))
    (hlaunch : m.launch? r.context = none) (hbusy : r.height < m.stack.length)
    (hheight : r.height ≤ stack.length) : ∃ n b, r.Finish m a stack n b := by
  induction howed : r.owed a using Nat.strongRecOn generalizing m a with
  | ind owed ih =>
  rw [h.checkLoop] at hadvance
  obtain ⟨hround, hs₁, hm₁⟩ := h.quietRound hbusy hlaunch hadvance rfl h.context rfl
    (.refl h.taskless) rfl
  have hbusy₁ : r.height < (m.after r.client 1).stack.length :=
    (congrArg List.length hs₁).symm ▸ Nat.lt_succ_of_le hheight
  obtain ⟨k, b, hiterated, hs₂, hm₂⟩ := hround.rest.iterate hm₁ hbusy₁
  have hs₂ := hs₂.trans hs₁
  cases hpending : a.context.pending with
  | true =>
      rw [hpending] at hm₂
      obtain ⟨n, d, hfinish⟩ := ih (r.owed b) (howed ▸ hiterated.less hpending) hiterated.rest
        (Machine.advance_resume r.client hm₂ hs₂) (Machine.launch?_of_deliver hm₂)
        (by rw [hs₂]; exact Nat.lt_succ_of_le hheight) rfl
      exact ⟨_, d, hround.lap.finish (hiterated.lap.finish hfinish)⟩
  | false =>
      rw [hpending] at hm₂
      have hidle := hiterated.idle hpending
      cases hnext : b.context.nextDeadline with
      | none =>
          have hfinish : r.Finish _ b stack 0 b := ⟨.refl hiterated.rest, hs₂, hm₂, hidle, hnext⟩
          exact ⟨_, b, hround.lap.finish (hiterated.lap.finish hfinish)⟩
      | some deadline =>
          obtain ⟨j, d, count, hlap, hless, hs₃, hm₃⟩ :=
            hiterated.rest.toDeadline hidle hnext hs₂ hm₂ hheight
          obtain ⟨n, e, hfinish⟩ := ih (r.owed d)
            (howed ▸ Nat.lt_of_lt_of_le hless hiterated.owed_le) hlap.rest
            (Machine.advance_resume r.client hm₃ hs₃) (Machine.launch?_of_deliver hm₃)
            (by rw [hs₃]; exact Nat.lt_succ_of_le hheight) rfl
          exact ⟨_, e, hround.lap.finish (hiterated.lap.finish (hlap.finish hfinish))⟩

/-- When nothing is pending and there is no deadline ahead, no source is attached any more. -/
theorem AtRest.sources_eq_nil (h : r.AtRest m a) (hidle : a.context.pending = false)
    (hnone : a.context.nextDeadline = none)
    (hwaiting : (m.desk r.context).waiting = r.waiting) : a.context.sources = [] := by
  refine List.eq_nil_iff_forall_not_mem.mpr fun s hs => ?_
  cases hkind : s.kind.isIdle with
  | true =>
      have hready : s.isReadyIdle = true := by
        rw [Source.isReadyIdle, hkind, h.still s hs]
        rfl
      have hpending := (MainContext.pending_iff h.sound.nodup).mpr (.inr (.inl ⟨s, hs, hready⟩))
      cases hidle.symm.trans hpending
  | false =>
      refine MainContext.not_armed_of_nextDeadline h.sound.nodup hnone hs ?_
      exact h.sound.armed_of_at_rest hs hkind (hwaiting ▸ (h.serves s hs).apart) (h.still s hs)

end

end Stint

namespace Stint

section
variable {r : Stint σ β κ} {m : Machine σ β κ} {a b : Ledger β} {stack : List (Layer β κ)} {n : Nat}

/-- With nothing pending and no deadline ahead, the loop stops. -/
theorem Finish.stops (h : r.Finish m a stack n b) :
    ((m.after r.client n).step r.client).stack = stack ∧
      ((m.after r.client n).step r.client).control = .deliver .done ∧
      ((m.after r.client n).step r.client).world.context? r.context = some b.context ∧
      ((m.after r.client n).step r.client).world.loops.find? r.loop =
        some { context := r.context, running := false } := by
  have hadvance := (Machine.advance_resume r.client h.answered h.layers).trans
    (congrArg _ (h.rest.endLoop h.spent h.idle))
  obtain ⟨hstack, hcontrol, -⟩ := Machine.step_fields r.client hadvance
  refine ⟨hstack, hcontrol, Machine.context?_step ?_ h.rest.taskless, ?_⟩
  · rw [hadvance]
    exact h.rest.context
  · rw [(Machine.fades_step r.client _).loops, hadvance]
    show ((m.after r.client n).world.setRunning r.loop false).loops.find? r.loop = _
    rw [World.loops_setRunning, if_pos rfl, h.rest.running]
    rfl

/-- It stops only when no source is attached any more. -/
theorem Finish.sources_eq_nil (h : r.Finish m a stack n b)
    (hwaiting : (marks stack).flatMap (·.waiting r.context) = r.waiting) :
    b.context.sources = [] := by
  refine h.rest.sources_eq_nil h.idle h.spent ?_
  rw [← hwaiting]
  show (marks (m.after r.client n).stack).flatMap _ = _
  rw [h.layers]
  rfl

end

end Stint

/-! ## Every run -/

section
variable {client : Client σ β κ} {m : Machine σ β κ} {l : LoopId} {loop : MainLoop}
  {x : MainContext β} {counts : σ → (SourceId → Nat) → Prop} {left : SourceId → Nat}

/-- A source neither runs nor waits for its turn, and its callback counts down. One that runs once
does not ask to stay. -/
structure Machine.Countable (client : Client σ β κ) (m : Machine σ β κ) (c : ContextId)
    (counts : σ → (SourceId → Nat) → Prop) (left : SourceId → Nat) (s : Source β) : Prop where
  still : s.running = false
  apart : s.id ∉ (m.desk c).waiting
  work : ∃ once callback, s.work = World.callbackWork once callback ∧
    client.CountsDown c counts s.id callback ∧ (once = true → left s.id = 0)

/-- What the run of a loop counts on. -/
def Machine.stint (client : Client σ β κ) (m : Machine σ β κ) (l : LoopId) (loop : MainLoop)
    (x : MainContext β) (counts : σ → (SourceId → Nat) → Prop) : Stint σ β κ where
  client := client
  context := loop.context
  loop := l
  counts := counts
  ids := x.sources.map (·.id)
  waiting := (m.desk loop.context).waiting
  height := m.stack.length

/-- A run of a loop begins at rest. -/
theorem Machine.atRest_of_runLoop (hreach : Reachable client m)
    (hl : m.world.loops.find? l = some loop) (hx : m.world.context? loop.context = some x)
    (hclock : x.config.clock = .manual) (htasks : x.heldTasks = [])
    (hm : m.control = .perform (.runLoop l)) (hleft : counts m.client left)
    (hsources : ∀ s ∈ x.sources, m.Countable client loop.context counts left s) :
    (m.stint client l loop x counts).AtRest (m.step client) ⟨x, left⟩ := by
  have hadvance : m.advance client = m.follow client m.stack (m.world.runLoop l) :=
    advance_perform client hm
  refine ⟨⟨hreach.step, context?_step ?_ htasks, hclock, htasks, loop_set hm hl rfl⟩, ?_,
    fun s hs => (hsources s hs).still, fun s hs => ?_⟩
  · rw [hadvance]
    exact hx
  · show counts (m.step client).client left
    rw [client_step, hadvance]
    exact hleft
  · exact ⟨List.mem_map_of_mem hs, (hsources s hs).apart, (hsources s hs).work⟩

end

/-- **A run of a loop spends the sources of its context.** On a manual clock, without tasks, with
sources of any kind, priority and interval whose callbacks count down, and of which none runs or
waits for its turn in an iteration in progress (as when the program alone is in progress,
`Reachable.desk_of_outside`), the run returns. Until then the callback of each source has started
once more often than it asked to stay, and no source is attached any more. There is no deadline, the
loop does not run, and the clock shows the last deadline that was served, or what it showed before
if there was none. -/
theorem run_spends_sources (client : Client σ β κ) (m : Machine σ β κ) (hreach : Reachable client m)
    (l : LoopId) (loop : MainLoop) (hl : m.world.loops.find? l = some loop) (x : MainContext β)
    (hx : m.world.context? loop.context = some x) (hclock : x.config.clock = .manual)
    (htasks : x.heldTasks = []) (hm : m.control = .perform (.runLoop l))
    (counts : σ → (SourceId → Nat) → Prop) (left : SourceId → Nat) (hleft : counts m.client left)
    (hsources : ∀ s ∈ x.sources, m.Countable client loop.context counts left s) :
    ∃ n y, m.Answers client (.runLoop l) .done n ∧
      (∀ id, (m.launches client loop.context n).count id =
        if x.isPending id then left id + 1 else 0) ∧
      (m.after client n).world.context? loop.context = some y ∧ y.sources = [] ∧
      y.nextDeadline = none ∧
      (m.after client n).world.loops.find? l = some { loop with running := false } ∧
      y.now = (m.deadlines client loop.context n).getLast?.getD x.now := by
  have hrest := Machine.atRest_of_runLoop hreach hl hx hclock htasks hm hleft hsources
  have hadvance : m.advance client = m.follow client m.stack (m.world.runLoop l) :=
    Machine.advance_perform client hm
  obtain ⟨hs₁, hm₁, -⟩ := Machine.step_fields client hadvance
  have hcheck : (m.step client).advance client =
      (m.step client).follow client m.stack ((m.step client).world.checkLoop l) :=
    Machine.advance_resume client hm₁ hs₁
  have hlayers : (m.stint client l loop x counts).height < (m.step client).stack.length := by
    rw [hs₁]
    exact Nat.lt_succ_self _
  obtain ⟨n, b, hfinish⟩ :=
    hrest.run hcheck (Machine.launch?_of_deliver hm₁) hlayers (Nat.le_refl _)
  obtain ⟨hs, hdone, hy, hstopped⟩ := hfinish.stops
  have hspent : b.context.sources = [] := hfinish.sources_eq_nil rfl
  have hafter : m.after client (1 + (n + 1)) = ((m.step client).after client n).step client :=
    Machine.after_add client m 1 (n + 1)
  obtain ⟨hlaunches, hdeadlines⟩ := Machine.silent_ends (c := loop.context) client
    (Machine.launch?_of_perform hm) (Machine.launch?_of_deliver hfinish.answered)
  refine ⟨1 + (n + 1), b.context, .of_perform hm (fun i hpos hi => ?_) ?_ ?_, fun id => ?_, ?_,
    hspent, hfinish.spent, ?_, ?_⟩
  · obtain ⟨j, rfl⟩ := Nat.exists_eq_add_of_lt hpos
    rw [Nat.zero_add, Nat.add_comm, Machine.after_add]
    rcases Nat.lt_or_eq_of_le (show j ≤ n by omega) with hj | rfl
    · exact hfinish.busy j hj
    · exact (congrArg List.length hfinish.layers).symm ▸ Nat.lt_succ_self _
  · rw [hafter]
    exact congrArg List.length hs
  · rw [hafter]
    exact hdone
  · have hcount := hfinish.launches id
    rw [Ledger.due_eq_zero (by simp [hspent]), Nat.add_zero] at hcount
    rw [hlaunches]
    exact hcount
  · rw [hafter]
    exact hy
  · rw [hafter]
    exact hstopped
  · rw [hdeadlines]
    exact hfinish.clock

/-- A program that runs a loop over an idle source and two timeouts. Its state has the counters of
the sources. -/
def spender : Client (SourceId → Nat) Nat (Routine Nat) where
  start _ left _ inv :=
    match inv.role with
    | .source _ id =>
      (Function.update left id (left id - 1), { outcome := .flow (decide (0 < left id)) })
    | _ => (left, { acts := [.command (.newContext { clock := .manual }),
        .command (.addIdle ⟨0⟩ .low false 1), .command (.addTimeout ⟨0⟩ .standard 5 false 1),
        .command (.addTimeout ⟨0⟩ .high 0 false 1), .command (.newLoop ⟨0⟩),
        .command (.runLoop ⟨0⟩)] })
  resume _ left rest _ :=
    match rest.acts with
    | .command command :: acts => (left, .command command { rest with acts })
    | _ => (left, .finish rest.outcome)
  report left _ := left
  keeps _ := []
  holds _ := []

/-- The state in which `spender` asks for the run of its loop. -/
def spenderStart : Machine (SourceId → Nat) Nat (Routine Nat) :=
  (Machine.initial (fun id => id.number + 1) 0).after spender 12

theorem countsDown_spender (c : ContextId) (id : SourceId) :
    spender.CountsDown c (fun state left => state = left) id 1 := by
  rintro w v state left rfl
  exact ⟨_, _, rfl, rfl, rfl⟩

set_option maxRecDepth 100000 in
/-- The sources of `spender` start twice, three and four times. -/
theorem run_spends_sources_spender :
    ∃ n y, spenderStart.Answers spender (.runLoop ⟨0⟩) .done n ∧
      (spenderStart.launches spender ⟨0⟩ n).count ⟨0⟩ = 2 ∧
      (spenderStart.launches spender ⟨0⟩ n).count ⟨1⟩ = 3 ∧
      (spenderStart.launches spender ⟨0⟩ n).count ⟨2⟩ = 4 ∧
      (spenderStart.after spender n).world.context? ⟨0⟩ = some y ∧ y.sources = [] ∧
      y.now = (spenderStart.deadlines spender ⟨0⟩ n).getLast?.getD 0 := by
  have hm : spenderStart.control = .perform (.runLoop ⟨0⟩) := by cbv
  have hl : spenderStart.world.loops.find? ⟨0⟩ = some { context := ⟨0⟩ } := by cbv
  have hleft : spenderStart.client = fun id => id.number + 1 := by cbv
  have hcontext : (spenderStart.world.context? ⟨0⟩).map
      (fun x => (x.config.clock, x.heldTasks, x.sources, x.now)) = some (.manual, [],
        [{ id := ⟨0⟩, kind := .idle, priority := .low, readyAt := 0, work := .repeating 1 },
          { id := ⟨1⟩, kind := .timeout 5, priority := .standard, readyAt := 5,
            work := .repeating 1 },
          { id := ⟨2⟩, kind := .timeout 0, priority := .high, readyAt := 0,
            work := .repeating 1 }], 0) := by cbv
  have hwaiting : (spenderStart.desk ⟨0⟩).waiting = [] := by cbv
  obtain ⟨x, hx, hfields⟩ := Option.map_eq_some_iff.mp hcontext
  obtain ⟨hclock, hrest⟩ := Prod.mk.inj hfields
  obtain ⟨htasks, hrest⟩ := Prod.mk.inj hrest
  obtain ⟨hsources, hnow⟩ := Prod.mk.inj hrest
  have hall : ∀ s ∈ x.sources, s.running = false ∧ s.work = World.callbackWork false 1 := by
    rw [hsources]
    simp [World.callbackWork]
  obtain ⟨n, y, hanswers, hcounts, hy, hspent, -, -, htime⟩ := run_spends_sources spender
    spenderStart ((Reachable.initial _ 0).after 12) ⟨0⟩ { context := ⟨0⟩ } hl x hx hclock htasks hm
    (fun state left => state = left) (fun id => id.number + 1) hleft fun s hs =>
      ⟨(hall s hs).1, hwaiting ▸ List.not_mem_nil, false, 1, (hall s hs).2,
        countsDown_spender ⟨0⟩ s.id, fun honce => (by cases honce)⟩
  have hpending : x.isPending ⟨0⟩ = true ∧ x.isPending ⟨1⟩ = true ∧ x.isPending ⟨2⟩ = true := by
    unfold MainContext.isPending MainContext.source?
    rw [hsources]
    exact ⟨rfl, rfl, rfl⟩
  refine ⟨n, y, hanswers, ?_, ?_, ?_, hy, hspent, hnow ▸ htime⟩
  · rw [hcounts, if_pos hpending.1]
  · rw [hcounts, if_pos hpending.2.1]
  · rw [hcounts, if_pos hpending.2.2]

end ObjectSystem
