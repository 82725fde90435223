import ObjectSystem.Proofs.Gates
import ObjectSystem.Proofs.Strides

/-!
# Loops in progress

A loop stays over its context, and it is only told to run when a run of it begins
(`Machine.loop_step`). `Looping` lists how far a run can be: the loop looks whether it is to go on, an
iteration of its own is in progress, or it advances the clock to the next deadline and waits for what
is due there. Each step takes a run in progress to another of these, or the run returns
(`Looping.step`).
-/

namespace ObjectSystem

variable {σ β κ : Type}

/-! ## Loops and steps -/

namespace World

/-- A loop is still there, over its context, and runs only if it ran before. -/
def Slows (l : LoopId) (w v : World β) : Prop :=
  ∀ loop, w.loops.find? l = some loop → ∃ loop', v.loops.find? l = some loop' ∧
    loop'.context = loop.context ∧ (loop'.running = true → loop.running = true)

section
variable {u v w : World β} {l : LoopId}

theorem Slows.of_eq (h : v.loops = w.loops) : Slows l w v :=
  fun loop hl => ⟨loop, by rw [h, hl], rfl, id⟩

theorem Slows.trans (h : Slows l u v) (g : Slows l v w) : Slows l u w := by
  intro loop hl
  obtain ⟨loop', hl', hcontext, hrunning⟩ := h loop hl
  obtain ⟨loop'', hl'', hcontext', hrunning'⟩ := g loop' hl'
  exact ⟨loop'', hl'', hcontext'.trans hcontext, hrunning ∘ hrunning'⟩

theorem loops_setRunning (w : World β) (l other : LoopId) (running : Bool) :
    (w.setRunning l running).loops.find? other =
      if other = l then (w.loops.find? other).map fun loop => { loop with running }
      else w.loops.find? other :=
  Table.find?_modify w.loops l other fun loop => { loop with running }

theorem slows_setRunning (w : World β) (l other : LoopId) : Slows l w (w.setRunning other false) := by
  intro loop hl
  rw [loops_setRunning, hl]
  split
  · exact ⟨_, rfl, rfl, fun h => (by cases h)⟩
  · exact ⟨loop, rfl, rfl, id⟩

theorem slows_addLoop (w : World β) (c : ContextId) : Slows l w (w.addLoop c).1 := by
  intro loop hl
  refine ⟨loop, ?_, rfl, id⟩
  have hfind : (w.addLoop c).1.loops.find? l = _ := Table.find?_add w.loops _ l _
  rw [hfind, hl, Option.some_or]

theorem slows_checkLoop (w : World β) (other : LoopId) :
    Slows l w (w.checkLoop other).world := by
  unfold checkLoop
  split
  · exact .of_eq rfl
  · split
    · exact .of_eq rfl
    · exact slows_setRunning w l other

theorem slows_continueLoop (w : World β) (other : LoopId) (reply : Reply β) :
    Slows l w (w.continueLoop other reply).world := by
  unfold continueLoop
  split
  · exact slows_checkLoop w other
  · split
    · exact .of_eq rfl
    · split
      · exact .of_eq rfl
      · split
        · exact .of_eq rfl
        · split
          · exact slows_checkLoop w other
          · exact slows_setRunning w l other

end

end World

open World (Slows)

namespace Machine

variable {client : Client σ β κ} {m : Machine σ β κ} {l : LoopId} {loop : MainLoop}

/-- No step but the beginning of a run has a loop run. -/
theorem slows_step (hm : m.control ≠ .perform (.runLoop l)) :
    Slows l m.world (m.step client).world := by
  refine Slows.trans ?_ (.of_eq (fades_step client m).loops)
  cases passing_advance client m with
  | sidesteps h => exact .of_eq h.loops
  | performs command hc h =>
      rw [h]
      cases command with
      | construct con =>
          refine .of_eq ((m.world.bypasses_construct con).loops.trans ?_)
          split <;> rfl
      | newLoop c => exact World.slows_addLoop _ c
      | quitLoop other => exact World.slows_setRunning _ l other
      | runLoop other =>
          -- another loop is told to run
          have hne : l ≠ other := fun heq => hm (heq ▸ hc)
          refine fun loop hl => ⟨loop, ?_, rfl, id⟩
          have hfind : (m.world.setRunning other true).loops.find? l = _ :=
            m.world.loops_setRunning other l true
          rw [if_neg hne, hl] at hfind
          exact hfind
      | _ => exact .of_eq (World.bypasses_perform _ rfl).loops
  | resumes frame reply stack hc hs hframe h =>
      rw [h]
      cases frame with
      | constructing i properties =>
          rcases m.world.bypasses_continueConstructing i properties reply with hb | ⟨-, hclose⟩
          · exact .of_eq hb.loops
          · exact .of_eq ((congrArg World.loops hclose).trans rfl)
      | loop other => exact World.slows_checkLoop _ other
      | looped other => exact World.slows_continueLoop _ other reply
      | _ => cases hframe

/-- A loop runs or not as the command says. -/
theorem loop_set {command : Command β} {running : Bool} (hm : m.control = .perform command)
    (hl : m.world.loops.find? l = some loop)
    (hset : (m.world.perform command).world = m.world.setRunning l running) :
    (m.step client).world.loops.find? l = some { loop with running } := by
  have hloops := (fades_step client m).loops
  rw [advance_perform client hm] at hloops
  change _ = (m.world.perform command).world.loops at hloops
  rw [hloops, hset, World.loops_setRunning, if_pos rfl, hl]
  rfl

/-- A loop stays over its context. -/
theorem loop_step (client : Client σ β κ) (hl : m.world.loops.find? l = some loop) :
    ∃ loop', (m.step client).world.loops.find? l = some loop' ∧
      loop'.context = loop.context := by
  by_cases hm : m.control = .perform (.runLoop l)
  · exact ⟨_, loop_set hm hl rfl, rfl⟩
  · obtain ⟨loop', hl', hcontext, -⟩ := slows_step hm loop hl
    exact ⟨loop', hl', hcontext⟩

theorem loop_after (client : Client σ β κ) (hl : m.world.loops.find? l = some loop) (n : Nat) :
    ∃ loop', (m.after client n).world.loops.find? l = some loop' ∧
      loop'.context = loop.context := by
  induction n with
  | zero => exact ⟨loop, hl, rfl⟩
  | succ n ih =>
      obtain ⟨loop', hl', hcontext⟩ := ih
      obtain ⟨loop'', hl'', hcontext'⟩ := loop_step client hl'
      exact ⟨loop'', hl'', hcontext'.trans hcontext⟩

end Machine

/-! ## Runs of a loop in progress -/

/-- A run of a loop over a context is in progress on some layers. -/
inductive Looping (c : ContextId) (l : LoopId) (base : List (Layer β κ)) (m : Machine σ β κ) : Prop
  /-- It looks whether it is to go on. -/
  | checks (reply : Reply β) (hs : m.stack = .operation (.loop l) :: base)
      (hm : m.control = .deliver reply)
  /-- It asks for an iteration. -/
  | asks (hs : m.stack = .operation (.looped l) :: base) (hm : m.control = .perform (.iterate c))
  /-- Its iteration finds nothing to do. -/
  | rests (left : Nat) (h : Resting c (.operation (.looped l) :: base) left m)
  /-- Its iteration does something. -/
  | iterates (h : Iterating c true (.operation (.looped l) :: base) m)
  /-- It hears whether the iteration has done anything. -/
  | hears (worked : Bool) (hs : m.stack = .operation (.looped l) :: base)
      (hm : m.control = .deliver (.flag worked))
  /-- Nothing is pending, and it asks for an advance. -/
  | strides (wait : Nat) (hs : m.stack = .operation (.loop l) :: base)
      (hm : m.control = .perform (.advance c wait))
  /-- The advance has set the clock and asks for a run until idle. -/
  | settles (target count : Nat) (stage : AdvanceStage)
      (hs : m.stack = .operation (.advance c target count stage) :: .operation (.loop l) :: base)
      (hm : m.control = .perform (.runUntilIdle c))
  /-- What the advance has made due runs. -/
  | drains (target count : Nat) (stage : AdvanceStage)
      (h : Draining c (.operation (.advance c target count stage) :: .operation (.loop l) :: base) m)
  /-- It has run. -/
  | drained (target count : Nat) (stage : AdvanceStage) (ran : Nat)
      (hs : m.stack = .operation (.advance c target count stage) :: .operation (.loop l) :: base)
      (hm : m.control = .deliver (.count ran))

namespace Looping

variable {client : Client σ β κ} {c : ContextId} {l : LoopId} {base : List (Layer β κ)}
  {m : Machine σ β κ} {loop : MainLoop}

/-- A loop that looks whether it is to go on asks for an iteration or returns. -/
theorem of_check (hl : m.world.loops.find? l = some loop) (hcontext : loop.context = c)
    {m' : Machine σ β κ} (hf : m'.Follows (m.world.checkLoop l) base) :
    Looping c l base m' ∨ m'.stack = base ∧ m'.control = .deliver .done := by
  unfold World.checkLoop at hf
  rw [hl] at hf
  dsimp only at hf
  split at hf
  · exact .inl (.asks hf.stack (hcontext ▸ hf.control))
  · exact .inr ⟨hf.stack, hf.control⟩

/-- A loop that has heard of its iteration makes another one, advances the clock, or returns. -/
theorem of_continue (hl : m.world.loops.find? l = some loop) (hcontext : loop.context = c)
    (hexists : m.world.timetable? c ≠ none) {worked : Bool} {m' : Machine σ β κ}
    (hf : m'.Follows (m.world.continueLoop l (.flag worked)) base) :
    Looping c l base m' ∨ m'.stack = base ∧ m'.control = .deliver .done := by
  obtain ⟨x, hx⟩ := World.exists_context hexists
  cases worked with
  | true => exact of_check hl hcontext hf
  | false =>
      unfold World.continueLoop at hf
      dsimp only at hf
      rw [hl] at hf
      dsimp only at hf
      rw [hcontext, hx] at hf
      dsimp only at hf
      split at hf
      · next wait hwait => exact .inl (.strides wait hf.stack hf.control)
      · split at hf
        · exact of_check hl hcontext hf
        · exact .inr ⟨hf.stack, hf.control⟩

/-- An advance that has heard what ran makes another stride, or the loop looks again. -/
theorem of_advance {target count ran : Nat} {stage : AdvanceStage}
    (hexists : m.world.timetable? c ≠ none) {m' : Machine σ β κ}
    (hf : m'.Follows (m.world.continueAdvance c target count stage (.count ran))
      (.operation (.loop l) :: base)) : Looping c l base m' := by
  obtain ⟨x, hx⟩ := World.exists_context hexists
  have strides {target count : Nat} (hf : m'.Follows (m.world.stepClock c target count)
      (.operation (.loop l) :: base)) : Looping c l base m' := by
    rw [World.stepClock_eq hx] at hf
    exact .settles _ _ _ hf.stack hf.control
  unfold World.continueAdvance at hf
  dsimp only at hf
  split at hf
  · exact strides hf
  · split at hf
    · exact .settles _ _ _ hf.stack hf.control
    · exact strides hf
  · exact .checks _ hf.stack hf.control

/-- A run of a loop in progress goes on, or it returns. -/
theorem step (h : Looping c l base m) (hl : m.world.loops.find? l = some loop)
    (hcontext : loop.context = c) {x : MainContext β} (hx : m.world.context? c = some x)
    (hmanual : x.config.clock = .manual) (hsound : (m.desk c).Sound) :
    Looping c l base (m.step client) ∨
      (m.step client).stack = base ∧ (m.step client).control = .deliver .done := by
  have hexists : m.world.timetable? c ≠ none := by simp [World.timetable?_eq hx]
  -- a run until idle is in progress, or it has nothing more to do and replies
  have drained {target count total : Nat} {stage : AdvanceStage}
      (h : Draining c (.operation (.advance c target count stage) :: .operation (.loop l) :: base)
          (m.step client) ∨
        m.advance client =
          m.follow client (.operation (.advance c target count stage) :: .operation (.loop l) :: base)
            (.reply m.world (.count total))) : Looping c l base (m.step client) := by
    rcases h with h | h
    · exact .drains _ _ _ h
    · have hf := Machine.follows_of_advance client h
      exact .drained _ _ _ _ hf.stack hf.control
  cases h with
  | checks reply hs hm => exact of_check hl hcontext (Machine.follows_resume client hm hs)
  | asks hs hm =>
      -- what is pending now decides whether the iteration will do anything
      cases hpending : x.pending with
      | false =>
          have hrests := Resting.of_iterate client hm hx hsound hpending
          rw [hs] at hrests
          exact .inl (.rests 2 hrests)
      | true =>
          have hiterates := Iterating.of_iterate client hm hx hsound
          rw [hpending, hs] at hiterates
          exact .inl (.iterates hiterates)
  | rests left h =>
      rcases left with _ | left
      · cases h
      · rcases h.step client hexists with ⟨-, h⟩ | ⟨-, hs, hm⟩
        · exact .inl (.rests left h)
        · exact .inl (.hears false hs hm)
  | iterates h =>
      rcases h.step client hexists with h | ⟨hs, hm⟩
      · exact .inl (.iterates h)
      · exact .inl (.hears true hs hm)
  | hears worked hs hm =>
      exact of_continue hl hcontext hexists (Machine.follows_resume client hm hs)
  | strides wait hs hm =>
      have hf : (m.step client).Follows (m.world.advance c wait) m.stack :=
        Machine.follows_perform client hm
      unfold World.advance at hf
      rw [hx] at hf
      dsimp only at hf
      rw [hmanual, hs] at hf
      exact .inl (.settles _ _ _ hf.stack hf.control)
  | settles target count stage hs hm =>
      have hadvance := Machine.advance_perform client hm
      rw [hs] at hadvance
      exact .inl (drained ((Draining.of_drain client hexists hadvance).imp id (·.2)))
  | drains target count stage h =>
      rcases h.step client hexists hsound with h | ⟨total, -, -, -, h⟩
      · exact .inl (.drains _ _ _ h)
      · exact .inl (drained (.inr h))
  | drained target count stage ran hs hm =>
      exact .inl (of_advance hexists (Machine.follows_resume client hm hs))

/-- A run of a loop that begins is in progress until the stack is as it was before. -/
theorem after (hreach : Machine.Reachable client m) (hm : m.control = .perform (.runLoop l))
    (hl : m.world.loops.find? l = some loop) {x : MainContext β}
    (hx : m.world.context? loop.context = some x) (hmanual : x.config.clock = .manual) {n : Nat}
    (hpos : 0 < n)
    (hbusy : ∀ j, 0 < j → j ≤ n → m.stack.length < (m.after client j).stack.length) :
    Looping loop.context l m.stack (m.after client n) := by
  induction n with
  | zero => exact absurd hpos (Nat.lt_irrefl 0)
  | succ n ih =>
      rcases Nat.eq_zero_or_pos n with rfl | hpos'
      · have hf : (m.step client).Follows (m.world.runLoop l) m.stack :=
          Machine.follows_perform client hm
        exact .checks _ hf.stack hf.control
      · have hlooping := ih hpos' fun j hj hjn => hbusy j hj (Nat.le_succ_of_le hjn)
        obtain ⟨loop', hl', hcontext⟩ := Machine.loop_after client hl n
        obtain ⟨t, ht, hconfig⟩ := Machine.config_after client hx n
        obtain ⟨y, hy, rfl⟩ := Option.map_eq_some_iff.mp ht
        rcases hlooping.step hl' hcontext hy ((congrArg Config.clock hconfig).trans hmanual)
          ((hreach.after n).desk _) with h | ⟨hs, -⟩
        · exact h
        · exact absurd hs (Machine.stack_ne_of_busy (hbusy _ hpos (Nat.le_refl _)))

end Looping

end ObjectSystem
