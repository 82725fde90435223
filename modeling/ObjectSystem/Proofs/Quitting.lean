import ObjectSystem.Proofs.Loops

/-!
# Quitting

A loop that is told to quit makes no iteration of its own any more: `Stopped` lasts until the loop is
told to run again. But it looks only where one of its own iterations has ended. An advance that the
loop waits for goes on: it iterates as long as something is pending, and strides on to its target.

`Occasion` tells for which of the two an iteration of a run is made, and `Occasion.Spent` when there
is nothing left to do on that occasion. An iteration in which a loop was told to quit is the last one
of the run exactly if its occasion is spent at the end (`Occasion.windsUp`, `Occasion.iteratesOn`).
-/

namespace ObjectSystem

variable {σ β κ : Type}

open Machine (Reachable)

/-! ## Loops that were told to quit -/

/-- A loop is not running. -/
def World.Stopped (w : World β) (l : LoopId) : Prop :=
  ∃ loop, w.loops.find? l = some loop ∧ loop.running = false

section
variable {client : Client σ β κ} {m : Machine σ β κ} {l : LoopId} {base : List (Layer β κ)}

/-- A loop that is told to quit stops. -/
theorem Machine.stopped_of_quit (client : Client σ β κ) {loop : MainLoop}
    (hl : m.world.loops.find? l = some loop)
    (hm : m.control = .perform (.quitLoop l)) : (m.step client).world.Stopped l :=
  ⟨_, Machine.loop_set hm hl rfl, rfl⟩

/-- It stays so unless it is told to run. -/
theorem World.Stopped.step (h : m.world.Stopped l) (hm : m.control ≠ .perform (.runLoop l)) :
    (m.step client).world.Stopped l := by
  obtain ⟨loop, hl, hstopped⟩ := h
  obtain ⟨loop', hl', -, hruns⟩ := Machine.slows_step hm loop hl
  exact ⟨loop', hl', Bool.eq_false_iff.mpr fun h => Bool.eq_false_iff.mp hstopped (hruns h)⟩

theorem World.Stopped.after {n : Nat} (h : m.world.Stopped l)
    (hm : ∀ j, j < n → (m.after client j).control ≠ .perform (.runLoop l)) :
    (m.after client n).world.Stopped l := by
  induction n with
  | zero => exact h
  | succ n ih =>
      exact (ih fun j hj => hm j (Nat.lt_succ_of_lt hj)).step (hm n (Nat.lt_succ_self n))

/-- A loop that is stopped returns when it looks. -/
theorem World.Stopped.ends (h : m.world.Stopped l) {m' : Machine σ β κ}
    (hf : m'.Follows (m.world.checkLoop l) base) : m'.stack = base ∧ m'.control = .deliver .done := by
  obtain ⟨loop, hl, hstopped⟩ := h
  unfold World.checkLoop at hf
  rw [hl] at hf
  dsimp only at hf
  rw [hstopped, if_neg Bool.false_ne_true] at hf
  exact ⟨hf.stack, hf.control⟩

end

/-! ## Occasions of iterations -/

/-- What a run of a loop makes an iteration for. -/
inductive Occasion where
  /-- It is an iteration of the loop itself. -/
  | own
  /-- An advance waits for a run until idle, which has made so many iterations. -/
  | stride (count target total : Nat) (stage : AdvanceStage)

namespace Occasion

/-- The operations that the iteration stands on, the topmost first. -/
def frames (c : ContextId) (l : LoopId) : Occasion → List (Frame β)
  | .own => [.looped l]
  | .stride count target total stage => [.drain c count, .advance c target total stage, .loop l]

/-- The stack of the run when the iteration is over. -/
def layers (o : Occasion) (c : ContextId) (l : LoopId) (base : List (Layer β κ)) :
    List (Layer β κ) :=
  (o.frames c l).map .operation ++ base

/-- Nothing is left to be done on an occasion: an advance goes on as long as something is pending, or
due up to its target. -/
def Spent (w : World β) (c : ContextId) : Occasion → Prop
  | .own => True
  | .stride _ target _ stage => ∃ x, w.context? c = some x ∧ x.pending = false ∧
      (stage = .after ∨ ∀ deadline, x.nextDeadline = some deadline → target < deadline)

theorem length_lt_layers (o : Occasion) (c : ContextId) (l : LoopId) (base : List (Layer β κ)) :
    base.length < (o.layers c l base).length := by
  unfold layers frames
  cases o with
  | own => exact Nat.lt_succ_self _
  | stride count target total stage => exact Nat.lt_add_of_pos_right (k := 3) (by decide)

end Occasion

/-- When a callback tells the loop to quit, an iteration of the run is in progress. -/
theorem Looping.occasion {c : ContextId} {l : LoopId} {base : List (Layer β κ)} {m : Machine σ β κ}
    (h : Looping c l base m) {command : Command β} (hasked : m.asked = some command) :
    ∃ o : Occasion, Iterating c true (o.layers c l base) m := by
  -- a callback is on top, not an operation
  obtain ⟨-, rest, inv, stack, hcallback⟩ := Machine.of_asked hasked
  have callback {f : Frame β} {stack : List (Layer β κ)} (hs : m.stack = .operation f :: stack) :
      False := by
    cases hcallback.symm.trans hs
  cases h with
  | iterates h => exact ⟨.own, h⟩
  | drains target total stage h =>
      cases h with
      | iterates count h => exact ⟨.stride count target total stage, h⟩
      | asks count hs hm hpending => exact (callback hs).elim
      | hears count hs hm => exact (callback hs).elim
  | rests left h =>
      cases h with
      | looks reply hs hm hready => exact (callback hs).elim
      | closes reply hs hm => exact (callback hs).elim
  | checks reply hs hm => exact (callback hs).elim
  | asks hs hm => exact (callback hs).elim
  | hears worked hs hm => exact (callback hs).elim
  | strides wait hs hm => exact (callback hs).elim
  | settles target count stage hs hm => exact (callback hs).elim
  | drained target count stage ran hs hm => exact (callback hs).elim

/-- An iteration in progress is so until the stack is what it stands on; then it has answered. -/
theorem Iterating.answered {client : Client σ β κ} {c : ContextId} {worked : Bool}
    {base : List (Layer β κ)} {m : Machine σ β κ} (h : Iterating c worked base m)
    (hexists : m.world.timetable? c ≠ none) {n : Nat}
    (hbusy : ∀ j, j < n → base.length < (m.after client j).stack.length)
    (hs : (m.after client n).stack = base) :
    (m.after client n).control = .deliver (.flag worked) := by
  have run : ∀ j, j ≤ n → Iterating c worked base (m.after client j) ∨
      j = n ∧ (m.after client n).control = .deliver (.flag worked) := by
    intro j hj
    induction j with
    | zero => exact .inl h
    | succ j ih =>
        rcases ih (Nat.le_of_succ_le hj) with h | ⟨rfl, -⟩
        · rcases h.step client (Machine.timetable?_after_ne_none client hexists j) with h | ⟨hs', hm⟩
          · exact .inl h
          · rcases Nat.lt_or_eq_of_le hj with hlt | rfl
            · exact absurd hs' (Machine.stack_ne_of_busy (hbusy _ hlt))
            · exact .inr ⟨rfl, hm⟩
        · omega
  rcases run n (Nat.le_refl n) with h | ⟨-, hm⟩
  · exact absurd hs (Machine.stack_ne_of_busy h.length_lt)
  · exact hm

/-! ## The end of the iteration -/

/-- No callback is about to start, and no task to go on. -/
def Control.IsQuiet : Control β → Prop
  | .invoke _ _ => False
  | .continueTask _ _ _ => False
  | _ => True

namespace Machine

/-- Nothing comes on top of so many layers, and no callback is about to start. -/
def Winds (m : Machine σ β κ) (height : Nat) : Prop :=
  m.stack.length ≤ height ∧ m.control.IsQuiet

/-- After so many steps a run of a loop on some layers returns, and until then nothing happens. -/
structure WindsUp (client : Client σ β κ) (base : List (Layer β κ)) (height : Nat)
    (m : Machine σ β κ) (r : Nat) : Prop where
  busy : ∀ j, j < r → base.length < (m.after client j).stack.length
  winds : ∀ j, j ≤ r → (m.after client j).Winds height
  stack : (m.after client r).stack = base
  control : (m.after client r).control = .deliver .done

/-- After so many steps a run of a loop on some layers asks for another iteration, for which
something is pending. -/
structure IteratesOn (client : Client σ β κ) (c : ContextId) (base : List (Layer β κ))
    (m : Machine σ β κ) (r : Nat) : Prop where
  busy : ∀ j, j ≤ r → base.length < (m.after client j).stack.length
  control : (m.after client r).control = .perform (.iterate c)
  pending : (m.after client r).world.Pending c

section
variable {client : Client σ β κ} {m : Machine σ β κ} {c : ContextId} {l : LoopId}
  {base : List (Layer β κ)} {height r : Nat}

theorem Winds.of_deliver {reply : Reply β} (h : m.stack.length ≤ height)
    (hm : m.control = .deliver reply) : m.Winds height := by
  refine ⟨h, ?_⟩
  rw [hm]
  trivial

theorem Winds.of_perform {command : Command β} (h : m.stack.length ≤ height)
    (hm : m.control = .perform command) : m.Winds height := by
  refine ⟨h, ?_⟩
  rw [hm]
  trivial

theorem WindsUp.now (hs : m.stack = base) (hm : m.control = .deliver .done)
    (hheight : base.length ≤ height) : WindsUp client base height m 0 where
  busy j hj := absurd hj (Nat.not_lt_zero j)
  winds j hj := by
    obtain rfl := Nat.le_zero.mp hj
    exact .of_deliver (m := m) (hs ▸ hheight) hm
  stack := hs
  control := hm

theorem WindsUp.of_step (h : WindsUp client base height (m.step client) r)
    (hbusy : base.length < m.stack.length) (hwinds : m.Winds height) :
    WindsUp client base height m (r + 1) where
  busy j hj := by
    cases j with
    | zero => exact hbusy
    | succ j => exact after_succ client m j ▸ h.busy j (Nat.lt_of_succ_lt_succ hj)
  winds j hj := by
    cases j with
    | zero => exact hwinds
    | succ j => exact after_succ client m j ▸ h.winds j (Nat.le_of_succ_le_succ hj)
  stack := after_succ client m r ▸ h.stack
  control := after_succ client m r ▸ h.control

theorem IteratesOn.now (hbusy : base.length < m.stack.length)
    (hm : m.control = .perform (.iterate c)) (hpending : m.world.Pending c) :
    IteratesOn client c base m 0 where
  busy j hj := by
    obtain rfl := Nat.le_zero.mp hj
    exact hbusy
  control := hm
  pending := hpending

theorem IteratesOn.of_step (h : IteratesOn client c base (m.step client) r)
    (hbusy : base.length < m.stack.length) : IteratesOn client c base m (r + 1) where
  busy j hj := by
    cases j with
    | zero => exact hbusy
    | succ j => exact after_succ client m j ▸ h.busy j (Nat.le_of_succ_le_succ hj)
  control := after_succ client m r ▸ h.control
  pending := after_succ client m r ▸ h.pending

/-- A loop that looks after it was stopped returns. -/
theorem windsUp_of_check (hstopped : m.world.Stopped l)
    (hf : (m.step client).Follows (m.world.checkLoop l) base)
    (hbusy : base.length < m.stack.length) (hwinds : m.Winds height) :
    WindsUp client base height m 1 := by
  obtain ⟨hs, hm⟩ := hstopped.ends hf
  exact .of_step (.now hs hm (Nat.le_of_lt (Nat.lt_of_lt_of_le hbusy hwinds.1))) hbusy hwinds

/-- A run until idle that has nothing pending replies, and nothing else changes. -/
theorem settled_step {rest : List (Layer β κ)} {f : Frame β} {count : Nat}
    (htidy : m.isTidy client = true) (hf : .context c ∈ f.handles)
    (hcontrol : ∀ h ∈ m.control.handles, h = .context c)
    (hstack : m.stack = .operation f :: rest ∨
      ∃ count, m.stack = .operation (.drain c count) :: .operation f :: rest)
    (hadvance : m.advance client =
      m.follow client (.operation f :: rest) (m.world.drain c count))
    {x : MainContext β} (hx : m.world.context? c = some x) (hidle : x.pending = false) :
    (m.step client).stack = .operation f :: rest ∧
      (m.step client).control = .deliver (.count count) ∧ (m.step client).world = m.world := by
  rw [World.drain_of_idle hx hidle] at hadvance
  rw [step_of_reply htidy hcontrol hstack (List.mem_append_left _ hf) hadvance]
  exact ⟨rfl, rfl, rfl⟩

/-- With something pending, it asks for another iteration. -/
theorem iteratesOn_of_pending {rest : List (Layer β κ)} {count : Nat} (hpending : m.world.Pending c)
    (hadvance : m.advance client = m.follow client rest (m.world.drain c count))
    (hrest : base.length ≤ rest.length) (hbusy : base.length < m.stack.length) :
    IteratesOn client c base m 1 := by
  have hf := follows_of_advance client hadvance
  rw [World.drain_of_pending hpending] at hf
  refine .of_step (.now ?_ hf.control (hf.world.pending hpending)) hbusy
  rw [hf.stack]
  exact Nat.lt_succ_of_le hrest

end

section
variable {client : Client σ β κ} {m : Machine σ β κ} {c : ContextId} {l : LoopId}
  {base : List (Layer β κ)} {target total ran : Nat} {stage : AdvanceStage}

/-- At its target, an advance that has heard what ran replies, and a loop that was stopped returns. -/
theorem windsUp_of_advance (hstopped : m.world.Stopped l)
    (hs : m.stack = .operation (.advance c target total .after) :: .operation (.loop l) :: base)
    (hm : m.control = .deliver (.count ran)) :
    WindsUp client base (base.length + 3) m 2 := by
  have hf : (m.step client).Follows (.reply m.world (.count (total + ran)))
      (.operation (.loop l) :: base) := follows_resume client hm hs
  have hlength : m.stack.length = base.length + 2 := congrArg List.length hs
  have hlength' : (m.step client).stack.length = base.length + 1 := congrArg List.length hf.stack
  have hstopped' : (m.step client).world.Stopped l :=
    hstopped.step fun h => by cases hm.symm.trans h
  refine .of_step (windsUp_of_check hstopped' (follows_resume client hf.control hf.stack) ?_
    (.of_deliver ?_ hf.control)) ?_ (.of_deliver ?_ hm)
  all_goals omega

/-- An advance that has heard what ran makes its next stride and asks for a run until idle. -/
theorem strided_step (htidy : m.isTidy client = true)
    (hs : m.stack = .operation (.advance c target total stage) :: base) (hstage : stage ≠ .after)
    (hm : m.control = .deliver (.count ran)) (hran : stage = .within → 0 < ran)
    {x : MainContext β} (hx : m.world.context? c = some x) :
    (m.step client).stack =
        .operation (.advance c target (total + ran) (x.stride target).2) :: base ∧
      (m.step client).control = .perform (.runUntilIdle c) ∧
      (m.step client).world.context? c = some { x with now := (x.stride target).1 } := by
  rw [step_of_stride htidy hs hstage hm hran hx]
  exact ⟨rfl, rfl, World.context?_setTime hx _⟩

/-- An advance that has nothing more to run strides to its target, and a loop that was stopped
returns. -/
theorem windsUp_of_stride (htidy : m.isTidy client = true) (hstopped : m.world.Stopped l)
    (hs : m.stack = .operation (.advance c target total stage) :: .operation (.loop l) :: base)
    (hstage : stage ≠ .after) (hm : m.control = .deliver (.count ran))
    (hran : stage = .within → 0 < ran) {x : MainContext β} (hx : m.world.context? c = some x)
    (hidle : x.pending = false)
    (hnone : ∀ deadline, x.nextDeadline = some deadline → target < deadline) :
    WindsUp client base (base.length + 3) m 4 := by
  obtain ⟨hs₁, hm₁, hx₁⟩ := strided_step htidy hs hstage hm hran hx
  rw [MainContext.stride_of_none_due hnone] at hs₁ hx₁
  have hstopped₁ : (m.step client).world.Stopped l :=
    hstopped.step fun h => by cases hm.symm.trans h
  -- at the target, a run until idle finds nothing to do
  have hadvance := advance_perform client hm₁
  rw [hs₁] at hadvance
  obtain ⟨hs₂, hm₂, hw₂⟩ := settled_step (tidy_step client m) (List.mem_singleton_self _)
    (fun h hmem => by rw [hm₁] at hmem; exact List.mem_singleton.mp hmem) (.inl hs₁) hadvance hx₁
    (MainContext.pending_at hnone hidle)
  have hlength : m.stack.length = base.length + 2 := congrArg List.length hs
  have hlength₁ : (m.step client).stack.length = base.length + 2 := congrArg List.length hs₁
  refine .of_step (.of_step (windsUp_of_advance (hw₂ ▸ hstopped₁) hs₂ hm₂) ?_
    (.of_perform ?_ hm₁)) ?_ (.of_deliver ?_ hm)
  all_goals omega

/-- An advance for which something is due strides there, and asks for another iteration. -/
theorem iteratesOn_of_stride (htidy : m.isTidy client = true)
    (hs : m.stack = .operation (.advance c target total stage) :: .operation (.loop l) :: base)
    (hstage : stage ≠ .after) (hm : m.control = .deliver (.count ran))
    (hran : stage = .within → 0 < ran) {x : MainContext β} (hx : m.world.context? c = some x)
    {deadline : Nat} (hnext : x.nextDeadline = some deadline) (hdue : deadline ≤ target) :
    IteratesOn client c base m 2 := by
  obtain ⟨hs₁, hm₁, hx₁⟩ := strided_step htidy hs hstage hm hran hx
  rw [MainContext.stride_of_due hnext hdue] at hs₁ hx₁
  have hadvance := advance_perform client hm₁
  rw [hs₁] at hadvance
  have hlength : m.stack.length = base.length + 2 := congrArg List.length hs
  have hlength₁ : (m.step client).stack.length = base.length + 2 := congrArg List.length hs₁
  exact .of_step (iteratesOn_of_pending ⟨_, hx₁, MainContext.pending_at_deadline hnext⟩ hadvance
    (Nat.le_add_right _ 2) (by omega)) (by omega)

end

end Machine

namespace Occasion

variable {client : Client σ β κ} {m : Machine σ β κ} {c : ContextId} {l : LoopId}
  {base : List (Layer β κ)}

/-- When the occasion of the last iteration is spent, a run of a loop that was stopped returns. -/
theorem windsUp (o : Occasion) (htidy : m.isTidy client = true) (hstopped : m.world.Stopped l)
    (hs : m.stack = o.layers c l base) (hm : m.control = .deliver (.flag true))
    (hspent : o.Spent m.world c) :
    ∃ r, Machine.WindsUp client base (o.layers c l base).length m r := by
  cases o with
  | own =>
      have hlength : m.stack.length = base.length + 1 := congrArg List.length hs
      exact ⟨1, Machine.windsUp_of_check hstopped (Machine.follows_resume client hm hs) (by omega)
        (.of_deliver (Nat.le_of_eq hlength) hm)⟩
  | stride count target total stage =>
      obtain ⟨x, hx, hidle, hdone⟩ := hspent
      obtain ⟨hs₁, hm₁, hw₁⟩ := Machine.settled_step htidy (List.mem_singleton_self _)
        (fun h hmem => by rw [hm] at hmem; cases hmem) (.inr ⟨count, hs⟩)
        (Machine.advance_resume client hm hs) hx hidle
      rw [← hw₁] at hstopped hx
      have hlength : m.stack.length = base.length + 3 := congrArg List.length hs
      -- the run until idle replies; the advance is at its target, or has one more stride to make
      suffices ∃ r, Machine.WindsUp client base (base.length + 3) (m.step client) r by
        obtain ⟨r, h⟩ := this
        exact ⟨r + 1, h.of_step (by omega) (.of_deliver (Nat.le_of_eq hlength) hm)⟩
      by_cases hstage : stage = .after
      · subst hstage
        exact ⟨2, Machine.windsUp_of_advance hstopped hs₁ hm₁⟩
      · exact ⟨4, Machine.windsUp_of_stride (Machine.tidy_step client m) hstopped hs₁ hstage hm₁
          (fun _ => Nat.succ_pos count) hx hidle (hdone.resolve_left hstage)⟩

/-- As long as it is not, the run asks for another iteration. -/
theorem iteratesOn (o : Occasion) (htidy : m.isTidy client = true)
    (hs : m.stack = o.layers c l base) (hm : m.control = .deliver (.flag true))
    (hexists : m.world.timetable? c ≠ none) (hspent : ¬ o.Spent m.world c) :
    ∃ r, Machine.IteratesOn client c base m r := by
  cases o with
  | own => exact absurd trivial hspent
  | stride count target total stage =>
      obtain ⟨x, hx⟩ := World.exists_context hexists
      have hadvance := Machine.advance_resume client hm hs
      have hlength : m.stack.length = base.length + 3 := congrArg List.length hs
      cases hpending : x.pending with
      | true =>
          exact ⟨1, Machine.iteratesOn_of_pending ⟨x, hx, hpending⟩ hadvance (Nat.le_add_right _ 2)
            (by omega)⟩
      | false =>
          -- nothing is pending, so that the advance has something due before its target
          obtain ⟨hstage, hdue⟩ : stage ≠ .after ∧
              ¬ ∀ deadline, x.nextDeadline = some deadline → target < deadline :=
            not_or.mp fun h => hspent ⟨x, hx, hpending, h⟩
          simp only [not_forall, exists_prop, Nat.not_lt] at hdue
          obtain ⟨deadline, hnext, hdue⟩ := hdue
          obtain ⟨hs₁, hm₁, hw₁⟩ := Machine.settled_step htidy (List.mem_singleton_self _)
            (fun h hmem => by rw [hm] at hmem; cases hmem) (.inr ⟨count, hs⟩) hadvance hx hpending
          exact ⟨3, .of_step (Machine.iteratesOn_of_stride (Machine.tidy_step client m) hs₁ hstage hm₁
            (fun _ => Nat.succ_pos count) (hw₁ ▸ hx) hnext hdue) (by omega)⟩

end Occasion

/-! ## The contract -/

/-- The steps of a run until its last iteration is over, and those until it returns. -/
theorem Machine.WindsUp.answers {client : Client σ β κ} {m : Machine σ β κ} {l : LoopId}
    {k r height : Nat} (hm : m.control = .perform (.runLoop l))
    (hbusy : ∀ j, 0 < j → j < k → m.stack.length < (m.after client j).stack.length)
    (h : Machine.WindsUp client m.stack height (m.after client k) r) :
    m.Answers client (.runLoop l) .done (k + r) := by
  refine .of_perform hm (fun j hj hjr => ?_) ?_ ?_
  · rcases Nat.lt_or_ge j k with hlt | hle
    · exact hbusy j hj hlt
    · obtain ⟨i, rfl⟩ := Nat.exists_eq_add_of_le hle
      rw [after_add]
      exact h.busy i (Nat.lt_of_add_lt_add_left hjr)
  · rw [after_add]
    exact congrArg List.length h.stack
  · rw [after_add]
    exact h.control

/-- **A loop that is told to quit returns after the iteration if its occasion is spent.** Let a run of
a loop over a manual context be in progress, and let a callback tell the loop to quit. That is in an
iteration of the run, on some occasion. When it is over and the loop has not been told to run again,

* the run returns if the occasion is spent, and until then no callback starts and no task goes on;
* it asks for another iteration if it is not: then an advance is in progress, and something is pending
  or due up to its target. -/
theorem quit_ends_spent_runs (client : Client σ β κ) (m : Machine σ β κ) (hreach : Reachable client m)
    (l : LoopId) (loop : MainLoop) (hl : m.world.loops.find? l = some loop) (x : MainContext β)
    (hx : m.world.context? loop.context = some x) (hmanual : x.config.clock = .manual)
    (hm : m.control = .perform (.runLoop l)) (n : Nat)
    (hbusy : ∀ j, 0 < j → j ≤ n → m.stack.length < (m.after client j).stack.length)
    (hquit : (m.after client n).asked = some (.quitLoop l)) :
    (∃ o : Occasion,
      Iterating loop.context true (o.layers loop.context l m.stack) (m.after client n)) ∧
    ∀ o : Occasion,
      Iterating loop.context true (o.layers loop.context l m.stack) (m.after client n) →
      ∀ k, n < k →
        (∀ j, n ≤ j → j < k →
          (o.layers loop.context l m.stack).length < (m.after client j).stack.length ∧
            (m.after client j).control ≠ .perform (.runLoop l)) →
        (m.after client k).stack = o.layers loop.context l m.stack →
        (m.after client k).control = .deliver (.flag true) ∧
          (o.Spent (m.after client k).world loop.context →
            ∃ r, m.Answers client (.runLoop l) .done (k + r) ∧ ∀ j, j ≤ r →
              (m.after client (k + j)).Winds (o.layers loop.context l m.stack).length) ∧
          (¬ o.Spent (m.after client k).world loop.context →
            ∃ r, Machine.IteratesOn client loop.context m.stack (m.after client k) r) := by
  have hexists : m.world.timetable? loop.context ≠ none := by simp [World.timetable?_eq hx]
  have hcontrol := (Machine.of_asked hquit).1
  have hpos : 0 < n := by
    rcases Nat.eq_zero_or_pos n with rfl | hpos
    · cases hm.symm.trans hcontrol
    · exact hpos
  refine ⟨(Looping.after hreach hm hl hx hmanual hpos hbusy).occasion hquit,
    fun o hiterating k hk hwithin hs => ?_⟩
  obtain ⟨i, rfl⟩ := Nat.exists_eq_add_of_lt hk
  -- the iteration goes on after the loop was told to quit, and then it is over
  have hover : (m.after client (n + i + 1)).control = .deliver (.flag true) := by
    have hsame := Machine.after_add client m n (i + 1)
    rw [← Nat.add_assoc] at hsame
    rw [hsame] at hs ⊢
    refine hiterating.answered (Machine.timetable?_after_ne_none client hexists n) (fun j hj => ?_) hs
    rw [← Machine.after_add]
    exact (hwithin (n + j) (Nat.le_add_right n j) (by omega)).1
  have hstopped : (m.after client (n + i + 1)).world.Stopped l := by
    obtain ⟨loop', hl', -⟩ := Machine.loop_after client hl n
    have hquits := Machine.stopped_of_quit client hl' hcontrol
    have hsame := Machine.after_add client m (n + 1) i
    rw [Nat.add_right_comm] at hsame
    rw [hsame]
    refine World.Stopped.after hquits fun j hj => ?_
    have hnot := (hwithin (n + 1 + j) (by omega) (by omega)).2
    rwa [Machine.after_add] at hnot
  have htidy := Machine.tidy_step client (m.after client (n + i))
  refine ⟨hover, fun hspent => ?_, o.iteratesOn htidy hs hover
    (Machine.timetable?_after_ne_none client hexists _)⟩
  obtain ⟨r, hwinds⟩ := o.windsUp htidy hstopped hs hover hspent
  refine ⟨r, hwinds.answers hm fun j hj hjk => ?_, fun j hj => ?_⟩
  · rcases Nat.lt_or_ge j n with hlt | hle
    · exact hbusy j hj (Nat.le_of_lt hlt)
    · exact Nat.lt_trans (o.length_lt_layers _ l _) (hwithin j hle hjk).1
  · rw [Machine.after_add]
    exact hwinds.winds j hj

/-- A program that runs a loop over a context with one timeout, whose callback tells the loop to quit.
It may attach an idle source then. -/
def closer (attaches : Bool) : Client Unit Nat (Routine Nat) :=
  .ofRoutines
    (fun
      | 0 => { acts := [.command (.newContext { clock := .manual }), .command (.newLoop ⟨0⟩),
          .command (.addTimeout ⟨0⟩ .standard 5 true 1), .command (.runLoop ⟨0⟩)] }
      | 1 => { acts := .command (.quitLoop ⟨0⟩) ::
          if attaches then [.command (.addIdle ⟨0⟩ .standard true 2)] else [] }
      | _ => { outcome := .flow false })
    []

/-- The state in which `closer` asks for the run of its loop. -/
def closerStart (attaches : Bool) : Machine Unit Nat (Routine Nat) :=
  (Machine.initial () 0).after (closer attaches) 8

/-- A state of this run. -/
def closerAfter (attaches : Bool) (n : Nat) : Machine Unit Nat (Routine Nat) :=
  (closerStart attaches).after (closer attaches) n

/-- The occasion on which the loop of `closer` is told to quit. -/
def closerOccasion : Occasion :=
  .stride 0 5 0 .within

/-- The stack when the iteration with the timeout is over. -/
def closerLayers (attaches : Bool) : List (Layer Nat (Routine Nat)) :=
  closerOccasion.layers ⟨0⟩ ⟨0⟩ (closerStart attaches).stack

/-- The loop of `closer` is told to quit in an iteration for an advance. -/
theorem closer_iterating (attaches : Bool) :
    Iterating ⟨0⟩ true (closerLayers attaches) (closerAfter attaches 15) := by
  refine .runs ((closerAfter attaches 15).stack.take 2) [] ?_
  cases attaches <;> cbv

/-- The loop that is told to run. -/
def Control.run? : Control β → Option LoopId
  | .perform (.runLoop l) => some l
  | _ => none

theorem Control.ne_of_run? {control : Control β} (h : control.run? = none) (l : LoopId) :
    control ≠ .perform (.runLoop l) := by
  rintro rfl
  cases h

set_option maxRecDepth 100000 in
/-- If `closer` attaches nothing, the loop returns; otherwise it makes another iteration. -/
theorem quit_ends_spent_runs_closer :
    (closerAfter false 15).asked = some (.quitLoop ⟨0⟩) ∧
      (∃ r, (closerStart false).Answers (closer false) (.runLoop ⟨0⟩) .done (19 + r) ∧
        ∀ j, j ≤ r → (closerAfter false (19 + j)).Winds (closerLayers false).length) ∧
      (closerAfter true 15).asked = some (.quitLoop ⟨0⟩) ∧
      ∃ r, Machine.IteratesOn (closer true) ⟨0⟩ (closerStart true).stack (closerAfter true 21) r := by
  have hquit (attaches : Bool) : (closerAfter attaches 15).asked = some (.quitLoop ⟨0⟩) := by
    cases attaches <;> cbv
  have hm (attaches : Bool) : (closerStart attaches).control = .perform (.runLoop ⟨0⟩) := by
    cases attaches <;> cbv
  have hl (attaches : Bool) : (closerStart attaches).world.loops.find? ⟨0⟩ =
      some { context := ⟨0⟩, running := false } := by
    cases attaches <;> cbv
  have hmanual (attaches : Bool) : ((closerStart attaches).world.context? ⟨0⟩).map
      (·.config.clock) = some .manual := by
    cases attaches <;> decide +kernel
  have hbusy (attaches : Bool) : ∀ j, j < 16 → 0 < j →
      (closerStart attaches).stack.length < (closerAfter attaches j).stack.length := by
    cases attaches <;> decide +kernel
  have hwithin (attaches : Bool) : ∀ j, j < (if attaches then 21 else 19) → 15 ≤ j →
      (closerLayers attaches).length < (closerAfter attaches j).stack.length ∧
        (closerAfter attaches j).control.run? = none := by
    cases attaches <;> decide +kernel
  have hover : (closerAfter false 19).stack = closerLayers false ∧
      (closerAfter true 21).stack = closerLayers true := by
    constructor <;> cbv
  have hspent : ((closerAfter false 19).world.context? ⟨0⟩).map
      (fun x => (x.pending, x.nextDeadline)) = some (false, none) := by decide +kernel
  have hpending : ((closerAfter true 21).world.context? ⟨0⟩).map (·.pending) = some true := by
    decide +kernel
  obtain ⟨x, hx, hclock⟩ := Option.map_eq_some_iff.mp (hmanual false)
  obtain ⟨y, hy, hclock'⟩ := Option.map_eq_some_iff.mp (hmanual true)
  obtain ⟨-, hfalse⟩ := quit_ends_spent_runs (closer false) (closerStart false)
    ((Reachable.initial () 0).after 8) ⟨0⟩ _ (hl false) x hx hclock (hm false) 15
    (fun j hpos hj => hbusy false j (Nat.lt_succ_of_le hj) hpos) (hquit false)
  obtain ⟨-, htrue⟩ := quit_ends_spent_runs (closer true) (closerStart true)
    ((Reachable.initial () 0).after 8) ⟨0⟩ _ (hl true) y hy hclock' (hm true) 15
    (fun j hpos hj => hbusy true j (Nat.lt_succ_of_le hj) hpos) (hquit true)
  obtain ⟨-, hreturns, -⟩ := hfalse closerOccasion (closer_iterating false) 19 (by decide)
    (fun j hj hjk => (hwithin false j hjk hj).imp id fun h => Control.ne_of_run? h ⟨0⟩) hover.1
  obtain ⟨-, -, hgoesOn⟩ := htrue closerOccasion (closer_iterating true) 21 (by decide)
    (fun j hj hjk => (hwithin true j hjk hj).imp id fun h => Control.ne_of_run? h ⟨0⟩) hover.2
  refine ⟨hquit false, hreturns ?_, hquit true, hgoesOn ?_⟩
  · obtain ⟨z, hz, hsettled⟩ := Option.map_eq_some_iff.mp hspent
    obtain ⟨hidle, hnone⟩ := Prod.mk.inj hsettled
    exact ⟨z, hz, hidle, .inr fun deadline hnext => by cases hnone.symm.trans hnext⟩
  · rintro ⟨z, hz, hidle, -⟩
    obtain ⟨z', hz', hready⟩ := Option.map_eq_some_iff.mp hpending
    obtain rfl := Option.some.inj (hz'.symm.trans hz)
    cases hready.symm.trans hidle

set_option maxRecDepth 100000 in
/-- When `closer` attaches an idle source, its callback starts after the iteration in which the loop
was told to quit, and before the run returns. -/
theorem dispatches_after_quit :
    (closerStart true).control = .perform (.runLoop ⟨0⟩) ∧
      (closerAfter true 15).asked = some (.quitLoop ⟨0⟩) ∧
      Iterating ⟨0⟩ true (closerLayers true) (closerAfter true 15) ∧
      (closerAfter true 21).stack = closerLayers true ∧
      (∃ inv, (closerAfter true 25).control = .invoke 2 inv) ∧
      (closerAfter true 34).stack = (closerStart true).stack ∧
      ∀ j, j < 34 → 0 < j → (closerStart true).stack.length < (closerAfter true j).stack.length := by
  refine ⟨?_, ?_, closer_iterating true, ?_, ?_, ?_, ?_⟩
  · cbv
  · cbv
  · cbv
  · exact ⟨{ role := .source ⟨0⟩ ⟨1⟩ }, by cbv⟩
  · cbv
  · decide +kernel

end ObjectSystem
