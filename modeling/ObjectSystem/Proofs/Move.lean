import ObjectSystem.Machine
import ObjectSystem.Proofs.View

/-!
# Moves of the machine

A step makes a move and then reclaims: it abandons events and drops instances, one after the other.
What each of these changes keeps, reclaiming keeps (`reclaim_induction`). It leaves stack and control
alone and is calm (`calm_reclaim`), so for everything that views show a step is its move. `Moved`
lists the kinds of moves: an operation begins with a command or goes on with a reply, or it is the
turn of a callback, which changes nothing but itself.
-/

namespace ObjectSystem

variable {σ β κ : Type}

/-! ## Reclaiming -/

namespace World

/-- What every event that is abandoned keeps, abandoning all keeps. -/
theorem abandonEvents_induction {P : World β → Prop} (w : World β) (others : List EventId)
    (start : P w) (settles : ∀ v e, P v → P (v.settle e (.error .abandoned))) :
    P (w.abandonEvents others) := by
  unfold abandonEvents
  generalize w.lostEvents others = lost
  induction lost generalizing w with
  | nil => exact start
  | cons e lost ih => exact ih _ (settles w e start)

/-- What is kept when an instance is dropped that nothing keeps, and when events are abandoned, a
sweep keeps. -/
theorem sweep_induction {P : World β → Prop} {handles : List Handle} {events : List EventId}
    (drops : ∀ v i, i ∉ v.keptInstances handles → P v → P (v.dropInstance i))
    (abandons : ∀ v others, (∀ e ∈ events, e ∈ others) → P v → P (v.abandonEvents others))
    (fuel : Nat) (w : World β) (debris : List (Debris β)) (start : P w) :
    P (sweep handles events fuel w debris) := by
  fun_induction sweep handles events fuel w debris with
  | case1 fuel w i rest hi ih => exact ih start
  | case2 fuel w i rest x hi hkept ih => exact ih start
  | case3 w i rest x hi hkept => exact start
  | case4 w i rest x hi hkept fuel dropped ih =>
    exact ih (drops w i (fun hmem => hkept (List.mem_append_left _ hmem)) start)
  | case5 fuel w hs rest ih =>
    simp only [List.flatMap_subtype, List.unattach_attach] at ih
    exact ih (abandons w _ (fun e he => List.mem_append_left _ he) start)
  | case6 fuel w hnone => exact start
  | case7 w i x hsome => exact start
  | case8 w i x hsome fuel dropped ih =>
    have hunkept := List.find?_some hsome
    exact ih (drops w i (by simpa using hunkept) start)

end World

namespace Machine

section Reclaim
variable (client : Client σ β κ) (before m : Machine σ β κ)

/-- What every round of reclaiming keeps, reclaiming keeps. -/
theorem reclaim_keeps {P : Machine σ β κ → Prop} (h : P m)
    (round : ∀ before m, P m → P (reclaimOnce client before m)) : P (reclaim client before m) := by
  suffices ∀ rounds before m, P m → P (reclaimWithin client rounds before m) from this _ before m h
  intro rounds
  induction rounds with
  | zero => exact fun _ _ h => h
  | succ rounds ih =>
      intro before m h
      unfold reclaimWithin
      split
      · exact h
      · exact ih m _ (round before m h)

theorem stack_reclaimOnce : (reclaimOnce client before m).stack = m.stack := by
  unfold reclaimOnce
  dsimp only
  split <;> rfl

theorem control_reclaimOnce : (reclaimOnce client before m).control = m.control := by
  unfold reclaimOnce
  dsimp only
  split <;> rfl

theorem client_reclaimOnce : (reclaimOnce client before m).client = m.client := by
  unfold reclaimOnce
  dsimp only
  split <;> rfl

theorem reclaimOnce_induction {P : World β → Prop}
    (drops : ∀ v i, i ∉ v.keptInstances (m.handles client) → P v → P (v.dropInstance i))
    (abandons : ∀ v others, (∀ e ∈ m.stack.flatMap layerEvents, e ∈ others) → P v →
      P (v.abandonEvents others))
    (start : P m.world) : P (reclaimOnce client before m).world := by
  have habandon := abandons m.world _ (fun _ he => he) start
  unfold reclaimOnce
  dsimp only
  split
  · exact habandon
  · exact World.sweep_induction drops abandons _ _ _ habandon

/-- What every instance that is dropped and every event that is abandoned keeps, reclaiming keeps. -/
theorem reclaim_induction {P : World β → Prop} (drops : ∀ v i, P v → P (v.dropInstance i))
    (settles : ∀ v e, P v → P (v.settle e (.error .abandoned))) (start : P m.world) :
    P (reclaim client before m).world :=
  reclaim_keeps client before m (P := (P ·.world)) start fun before m' =>
    reclaimOnce_induction client before m' (fun v i _ => drops v i)
      fun v others _ hv => World.abandonEvents_induction v others hv settles

theorem stack_reclaim : (reclaim client before m).stack = m.stack :=
  reclaim_keeps client before m (P := (·.stack = m.stack)) rfl
    fun before m' h => (stack_reclaimOnce client before m').trans h

theorem control_reclaim : (reclaim client before m).control = m.control :=
  reclaim_keeps client before m (P := (·.control = m.control)) rfl
    fun before m' h => (control_reclaimOnce client before m').trans h

theorem client_reclaim : (reclaim client before m).client = m.client :=
  reclaim_keeps client before m (P := (·.client = m.client)) rfl
    fun before m' h => (client_reclaimOnce client before m').trans h

theorem calm_reclaim : World.Calm m.world (reclaim client before m).world :=
  reclaim_induction client before m (P := World.Calm m.world)
    (fun v i h => h.trans (World.calm_dropInstance v i))
    (fun v e h => h.trans (World.calm_settle v e _)) (.refl _)

@[simp] theorem stack_step : (m.step client).stack = (m.advance client).stack :=
  stack_reclaim client m _

@[simp] theorem control_step : (m.step client).control = (m.advance client).control :=
  control_reclaim client m _

theorem client_step : (m.step client).client = (m.advance client).client :=
  client_reclaim client m _

theorem calm_step : World.Calm (m.advance client).world (m.step client).world :=
  calm_reclaim client m _

end Reclaim

end Machine

/-! ## Moves -/

open World (Calm)

/-- A state that follows a step of an operation, with the layers below that operation, before or
after instances are dropped. -/
structure Machine.Follows (m' : Machine σ β κ) (p : Progress β) (stack : List (Layer β κ)) :
    Prop where
  world : Calm p.world m'.world
  stack : m'.stack = p.frames.map .operation ++ stack
  control : m'.control = p.control

/-- The kinds of moves: an operation begins or goes on, or it is a callback's turn. -/
inductive Machine.Moved (m m' : Machine σ β κ) : Prop
  /-- A command begins to be carried out. -/
  | performs (command : Command β) (hm : m.control = .perform command)
      (h : m'.Follows (m.world.perform command) m.stack)
  /-- An operation gets its reply. -/
  | resumes (frame : Frame β) (reply : Reply β) (stack : List (Layer β κ))
      (hm : m.control = .deliver reply) (hs : m.stack = .operation frame :: stack)
      (h : m'.Follows (frame.resume m.world reply) stack)
  /-- A callback is put on the stack, to start or to go on. -/
  | enters (rest : κ) (inv : Invocation) (reply : Reply β)
      (hm : (∃ callback, m.control = .invoke callback inv) ∨
        ∃ c task outcome, m.control = .continueTask c task outcome)
      (hw : Calm m.world m'.world) (hs : m'.stack = .callback rest inv :: m.stack)
      (hc : m'.control = .deliver reply)
  /-- A callback issues a command. -/
  | asks (command : Command β) (rest rest' : κ) (inv : Invocation) (stack : List (Layer β κ))
      (hw : Calm m.world m'.world) (hs : m.stack = .callback rest inv :: stack)
      (hs' : m'.stack = .callback rest' inv :: stack) (hc : m'.control = .perform command)
  /-- A callback goes on. -/
  | goesOn (reply : Reply β) (rest rest' : κ) (inv : Invocation) (stack : List (Layer β κ))
      (hw : Calm m.world m'.world) (hs : m.stack = .callback rest inv :: stack)
      (hs' : m'.stack = .callback rest' inv :: stack) (hc : m'.control = .deliver reply)
  /-- A callback ends or, being a task, waits. -/
  | leaves (reply : Reply β) (rest : κ) (inv : Invocation) (stack : List (Layer β κ))
      (hw : Calm m.world m'.world) (hs : m.stack = .callback rest inv :: stack)
      (hs' : m'.stack = stack) (hc : m'.control = .deliver reply)
      (hr : (∃ outcome, reply = .returned outcome) ∨
        reply = .suspended ∧ ∃ c task, inv.role = .task c task)
  /-- Nothing is in progress, or nothing can go on. -/
  | rests (reply : Reply β) (hw : Calm m.world m'.world) (hs : m'.stack = m.stack)
      (hm : (∃ r, m.control = .deliver r) ∧ m.stack = [] ∨
        ∃ c task outcome, m.control = .continueTask c task outcome)
      (hc : m'.control = .deliver reply)

namespace Machine

variable (client : Client σ β κ)

/-- A waiting task changes nothing but its own state and that of its event. -/
theorem calm_await (w : World β) (event : EventId) (waiter : Waiter) (c : ContextId)
    (task : TaskId) :
    Calm w (World.modifyContext
      { w with events := w.events.modify event fun e => { e with waiter := some waiter } } c
      fun context => context.modifyPass (·.modify task fun task => { task with awaits := some event })) := by
  have hmark (events : Table EventId Event) : Calm w { w with events } := .of_eq rfl rfl rfl
  refine (hmark _).trans (World.calm_modifyContext _ c ?_ ?_ ?_)
  · intro x
    unfold MainContext.modifyPass
    split <;> rfl
  · intro x
    unfold MainContext.modifyPass
    split
    · rfl
    · next set rest hset => simp [MainContext.roster, hset, TaskSet.ids_modify]
  · intro x hx
    unfold MainContext.modifyPass
    split <;> exact hx

/-- The move of a callback on top of the stack. -/
theorem moved_move (m : Machine σ β κ) {rest : κ} {inv : Invocation} {stack : List (Layer β κ)}
    (hs : m.stack = .callback rest inv :: stack) (state : σ) (next : Move β κ) :
    m.Moved (Machine.move { m with client := state } stack inv next) := by
  cases next with
  | finish outcome => exact .leaves _ rest inv stack (.refl _) hs rfl rfl (.inl ⟨outcome, rfl⟩)
  | command command rest' => exact .asks command rest rest' inv stack (.refl _) hs rfl rfl
  | pause rest' => exact .goesOn .proceed rest rest' inv stack (.refl _) hs rfl rfl
  | await event rest' =>
      unfold move awaitEvent
      dsimp only
      split
      · next c task hrole =>
          have htake := World.calm_takeOutcome m.world event
          split
          · next w outcome hw =>
              rw [hw] at htake
              exact .goesOn _ rest rest' inv stack htake hs rfl rfl
          · next w hw =>
              rw [hw] at htake
              exact .leaves _ rest inv stack (htake.trans (calm_await _ _ _ _ _)) hs rfl rfl
                (.inr ⟨rfl, c, task, hrole⟩)
      · exact .goesOn _ rest rest' inv stack (.refl _) hs rfl rfl

theorem moved_advance (m : Machine σ β κ) : m.Moved (m.advance client) := by
  unfold advance
  split
  · next command hm => exact .performs command hm ⟨.refl _, rfl, rfl⟩
  · next callback inv hm => exact .enters _ inv .proceed (.inl ⟨callback, hm⟩) (.refl _) rfl rfl
  · next c task outcome hm =>
      unfold continueTask
      dsimp only
      split
      · exact .rests .suspended (.refl _) rfl (.inr ⟨c, task, outcome, hm⟩) rfl
      · exact .enters _ _ _ (.inr ⟨c, task, outcome, hm⟩) (.refl _) rfl rfl
  · next reply hm =>
      split
      · next hs => exact .rests reply (.refl _) rfl (.inl ⟨⟨reply, hm⟩, hs⟩) hm
      · next rest inv stack hs =>
          exact moved_move m hs _ _
      · next frame stack hs => exact .resumes frame reply stack hm hs ⟨.refl _, rfl, rfl⟩

/-- A step is a move of one of the kinds: dropping instances is calm. -/
theorem moved_step (m : Machine σ β κ) : m.Moved (m.step client) := by
  have hcalm := calm_step client m
  have hstack := stack_step client m
  have hcontrol := control_step client m
  cases moved_advance client m with
  | performs command hm h =>
      exact .performs command hm ⟨h.world.trans hcalm, hstack.trans h.stack, hcontrol.trans h.control⟩
  | resumes frame reply stack hm hs h =>
      exact .resumes frame reply stack hm hs
        ⟨h.world.trans hcalm, hstack.trans h.stack, hcontrol.trans h.control⟩
  | enters rest inv reply hm hw hs hc =>
      exact .enters rest inv reply hm (hw.trans hcalm) (hstack.trans hs) (hcontrol.trans hc)
  | asks command rest rest' inv stack hw hs hs' hc =>
      exact .asks command rest rest' inv stack (hw.trans hcalm) hs (hstack.trans hs')
        (hcontrol.trans hc)
  | goesOn reply rest rest' inv stack hw hs hs' hc =>
      exact .goesOn reply rest rest' inv stack (hw.trans hcalm) hs (hstack.trans hs')
        (hcontrol.trans hc)
  | leaves reply rest inv stack hw hs hs' hc hr =>
      exact .leaves reply rest inv stack (hw.trans hcalm) hs (hstack.trans hs') (hcontrol.trans hc) hr
  | rests reply hw hs hm hc =>
      exact .rests reply (hw.trans hcalm) (hstack.trans hs) hm (hcontrol.trans hc)

/-! ## Moves of operations -/

theorem advance_perform {m : Machine σ β κ} {command : Command β}
    (hm : m.control = .perform command) :
    m.advance client = m.follow client m.stack (m.world.perform command) := by
  unfold advance
  rw [hm]

theorem advance_resume {m : Machine σ β κ} {reply : Reply β} {frame : Frame β}
    {stack : List (Layer β κ)} (hm : m.control = .deliver reply)
    (hs : m.stack = .operation frame :: stack) :
    m.advance client = m.follow client stack (frame.resume m.world reply) := by
  unfold advance
  rw [hm]
  dsimp only
  rw [hs]

/-- Stack, control and client after a step are those after its move. -/
theorem step_fields {m m' : Machine σ β κ} (h : m.advance client = m') :
    (m.step client).stack = m'.stack ∧ (m.step client).control = m'.control ∧
      (m.step client).client = m'.client :=
  ⟨h ▸ stack_step client m, h ▸ control_step client m, h ▸ client_step client m⟩

theorem follows_of_advance {m : Machine σ β κ} {stack : List (Layer β κ)} {p : Progress β}
    (h : m.advance client = m.follow client stack p) : (m.step client).Follows p stack := by
  have hcalm := calm_step client m
  have hstack := stack_step client m
  have hcontrol := control_step client m
  rw [h] at hcalm hstack hcontrol
  exact ⟨hcalm, hstack, hcontrol⟩

/-- A command that is to be carried out begins with the next step. -/
theorem follows_perform {m : Machine σ β κ} {command : Command β}
    (hm : m.control = .perform command) :
    (m.step client).Follows (m.world.perform command) m.stack :=
  follows_of_advance client (advance_perform client hm)

/-- An operation on top of the stack goes on with the reply that it gets. -/
theorem follows_resume {m : Machine σ β κ} {reply : Reply β} {frame : Frame β}
    {stack : List (Layer β κ)} (hm : m.control = .deliver reply)
    (hs : m.stack = .operation frame :: stack) :
    (m.step client).Follows (frame.resume m.world reply) stack :=
  follows_of_advance client (advance_resume client hm hs)

/-! ## Moves of callbacks -/

theorem advance_invoke {m : Machine σ β κ} {callback : β} {inv : Invocation}
    (hm : m.control = .invoke callback inv) : m.advance client =
      { m with
        client := (client.start m.world m.client callback inv).1
        stack := .callback (client.start m.world m.client callback inv).2 inv :: m.stack
        control := .deliver .proceed } := by
  unfold advance
  rw [hm]

theorem advance_finish {m : Machine σ β κ} {reply : Reply β} {rest : κ} {inv : Invocation}
    {stack : List (Layer β κ)} {state : σ} {outcome : Outcome β} (hm : m.control = .deliver reply)
    (hs : m.stack = .callback rest inv :: stack)
    (hresume : client.resume m.world m.client rest reply = (state, .finish outcome)) :
    m.advance client =
      { m with client := state, stack, control := .deliver (.returned outcome) } := by
  simp only [advance, hm, hs, hresume]
  rfl

end Machine

end ObjectSystem
