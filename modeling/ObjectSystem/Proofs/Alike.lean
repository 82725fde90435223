import ObjectSystem.Proofs.Run
import ObjectSystem.Proofs.Tidy

/-!
# Work in progress that holds the same

What a move does depends on the innermost layer alone (`advance_above`). Of the layers below it, and
of what happens next, reclaiming looks at the handles and the events that they hold. So in two states
that differ only in work that holds the same, and not on top, a step does the same
(`step_above`).
-/

namespace ObjectSystem

variable {σ β κ : Type}

namespace Machine

/-- The state with other work in progress. -/
def busyWith (m : Machine σ β κ) (stack : List (Layer β κ)) (control : Control β) :
    Machine σ β κ :=
  { m with stack, control }

/-- Other work holds the handles and events of what is in progress. -/
structure HoldsSame (client : Client σ β κ) (m : Machine σ β κ) (stack : List (Layer β κ))
    (control : Control β) : Prop where
  handles : control.handles ++ stack.flatMap (layerHandles client) =
    m.control.handles ++ m.stack.flatMap (layerHandles client)
  events : stack.flatMap layerEvents = m.stack.flatMap layerEvents

variable {client : Client σ β κ} {before before' m : Machine σ β κ} {stack : List (Layer β κ)}
  {control : Control β}

/-! ## Reclaiming -/

theorem HoldsSame.handles_eq (h : m.HoldsSame client stack control) :
    (m.busyWith stack control).handles client = m.handles client := by
  have hroots : (m.busyWith stack control).rootHandles client = m.rootHandles client := by
    unfold rootHandles
    rw [List.append_assoc, List.append_assoc]
    exact congrArg (client.keeps m.client ++ ·) h.handles
  rw [handles_eq_append, handles_eq_append, hroots]
  rfl

theorem HoldsSame.reclaimOnce (h : m.HoldsSame client stack control)
    (hworld : before'.world = before.world)
    (hhandles : before'.handles client = before.handles client) :
    reclaimOnce client before' (m.busyWith stack control) =
      (reclaimOnce client before m).busyWith stack control := by
  unfold Machine.reclaimOnce
  rw [h.handles_eq, hworld, hhandles]
  simp only [busyWith, h.events]
  split <;> rfl

theorem HoldsSame.isTidy (h : m.HoldsSame client stack control) :
    (m.busyWith stack control).isTidy client = m.isTidy client := by
  unfold Machine.isTidy
  rw [h.handles_eq]
  simp only [busyWith, h.events]

/-- A round of reclaiming does not change what is in progress. -/
theorem HoldsSame.after_reclaimOnce (h : m.HoldsSame client stack control)
    (before : Machine σ β κ) :
    (Machine.reclaimOnce client before m).HoldsSame client stack control := by
  constructor
  · rw [control_reclaimOnce, stack_reclaimOnce]
    exact h.handles
  · rw [stack_reclaimOnce]
    exact h.events

/-- Reclaiming depends on the work in progress only through what it holds. -/
theorem HoldsSame.reclaim (h : m.HoldsSame client stack control)
    (hworld : before'.world = before.world)
    (hhandles : before'.handles client = before.handles client) :
    reclaim client before' (m.busyWith stack control) =
      (reclaim client before m).busyWith stack control := by
  suffices ∀ rounds, ∀ before before' m : Machine σ β κ, m.HoldsSame client stack control →
      before'.world = before.world → before'.handles client = before.handles client →
      reclaimWithin client rounds before' (m.busyWith stack control) =
        (reclaimWithin client rounds before m).busyWith stack control from
    this _ before before' m h hworld hhandles
  intro rounds
  induction rounds with
  | zero => exact fun _ _ _ _ _ _ => rfl
  | succ rounds ih =>
      intro before before' m h hworld hhandles
      unfold reclaimWithin
      rw [h.isTidy, h.reclaimOnce hworld hhandles]
      split
      · rfl
      · exact ih m (m.busyWith stack control) _ (h.after_reclaimOnce before) rfl h.handles_eq

/-! ## Moves -/

/-- The move of a callback leaves the layers below it alone. -/
theorem move_above (m : Machine σ β κ) (below : List (Layer β κ)) (inv : Invocation)
    (next : Move β κ) :
    ∃ above, ∀ rest stack control, ((m.busyWith stack control).move (below ++ rest) inv next) =
      (m.move below inv next).busyWith (above ++ rest) (m.move below inv next).control := by
  cases next with
  | finish outcome => exact ⟨below, fun _ _ _ => rfl⟩
  | command command k => exact ⟨.callback k inv :: below, fun _ _ _ => rfl⟩
  | pause k => exact ⟨.callback k inv :: below, fun _ _ _ => rfl⟩
  | await event k =>
      unfold move awaitEvent
      dsimp only [busyWith]
      split
      · split
        · exact ⟨.callback k inv :: below, fun _ _ _ => rfl⟩
        · exact ⟨below, fun _ _ _ => rfl⟩
      · exact ⟨.callback k inv :: below, fun _ _ _ => rfl⟩

/-- A move concerns the innermost layer: what is below stays, whatever it is. -/
theorem advance_above (client : Client σ β κ) (m : Machine σ β κ) {above : List (Layer β κ)}
    (htop : above ≠ [] ∨ ∀ reply, m.control ≠ .deliver reply) :
    ∃ (above' : List (Layer β κ)) (n : Machine σ β κ), ∀ rest,
      (m.busyWith (above ++ rest) m.control).advance client =
        n.busyWith (above' ++ rest) n.control := by
  cases hm : m.control with
  | perform command =>
      let p := m.world.perform command
      refine ⟨p.frames.map .operation ++ above, m.follow client [] p, fun rest => ?_⟩
      rw [List.append_assoc]
      rfl
  | invoke callback inv =>
      let started := client.start m.world m.client callback inv
      exact ⟨.callback started.2 inv :: above,
        { m with client := started.1, control := .deliver .proceed }, fun rest => rfl⟩
  | continueTask d task outcome =>
      unfold advance continueTask
      dsimp only [busyWith]
      split
      · exact ⟨above, { m with control := .deliver .suspended }, fun rest => rfl⟩
      · next s hs =>
          exact ⟨.callback s.rest s.invocation :: above,
            { m with suspended := _, control := .deliver (.outcome (some outcome)) }, fun rest => rfl⟩
  | deliver reply =>
      -- the reply is heard by the innermost layer, which is one of those above
      rcases above with _ | ⟨layer, below⟩
      · exact absurd hm ((htop.resolve_left fun hne => hne rfl) reply)
      · cases layer with
        | callback k inv =>
            let heard := client.resume m.world m.client k reply
            obtain ⟨above', habove⟩ := move_above { m with client := heard.1 } below inv heard.2
            exact ⟨above', _, fun rest => habove rest _ (.deliver reply)⟩
        | operation frame =>
            let p := frame.resume m.world reply
            refine ⟨p.frames.map .operation ++ below, m.follow client [] p, fun rest => ?_⟩
            rw [List.append_assoc]
            rfl

/-! ## Steps -/

/-- After moves that differ in work that holds the same, steps differ in it alone. -/
theorem HoldsSame.step (h : m.HoldsSame client stack control) {n : Machine σ β κ}
    {stack' : List (Layer β κ)} {control' : Control β} (hadvance : m.advance client = n)
    (hadvance' : (m.busyWith stack control).advance client = n.busyWith stack' control')
    (hn : n.HoldsSame client stack' control') :
    (m.busyWith stack control).step client = (m.step client).busyWith stack' control' := by
  unfold Machine.step
  rw [hadvance', hadvance]
  exact hn.reclaim rfl h.handles_eq

/-- With other work below the innermost layer that holds the same, a step does the same. -/
theorem step_above (client : Client σ β κ) {above rest : List (Layer β κ)}
    (rest' : List (Layer β κ))
    (hs : m.stack = above ++ rest) (htop : above ≠ [] ∨ ∀ reply, m.control ≠ .deliver reply)
    (hhandles : rest'.flatMap (layerHandles client) = rest.flatMap (layerHandles client))
    (hevents : rest'.flatMap layerEvents = rest.flatMap layerEvents) :
    ∃ above', (m.step client).stack = above' ++ rest ∧
      (m.busyWith (above ++ rest') m.control).step client =
        (m.step client).busyWith (above' ++ rest') (m.step client).control := by
  obtain ⟨above', n, hadvance⟩ := advance_above client m htop
  -- the move of the state itself is the case of the work that it has
  have hself : m.busyWith (above ++ rest) m.control = m := by
    rw [← hs]
    rfl
  have hmove : m.advance client = n.busyWith (above' ++ rest) n.control := by
    rw [← hadvance rest, hself]
  have hbefore : m.HoldsSame client (above ++ rest') m.control := by
    constructor
    · rw [hs, List.flatMap_append, List.flatMap_append, hhandles]
    · rw [hs, List.flatMap_append, List.flatMap_append, hevents]
  have hafter : (n.busyWith (above' ++ rest) n.control).HoldsSame client (above' ++ rest')
      n.control := by
    constructor
    · simp only [busyWith, List.flatMap_append, hhandles]
    · simp only [busyWith, List.flatMap_append, hevents]
  refine ⟨above', ?_, ?_⟩
  · rw [stack_step, hmove]
    rfl
  · rw [hbefore.step hmove (hadvance rest') hafter, control_step, hmove]
    rfl

/-! ## Tidy states -/

/-- A move from a tidy state to work that still holds what was held is all that a step does. -/
theorem step_of_tidy {n : Machine σ β κ} (hadvance : m.advance client = n)
    (hn : n.isTidy client = true) : m.step client = n := by
  unfold step
  rw [hadvance]
  exact reclaim_of_tidy m hn

/-- Whether handles are held by some work, or are handles on contexts that are kept anyway. -/
def StillHeld (client : Client σ β κ) (m : Machine σ β κ) (stack : List (Layer β κ))
    (control : Control β) : Prop :=
  ∀ h ∈ m.control.handles ++ m.stack.flatMap (layerHandles client),
    h ∈ control.handles ++ stack.flatMap (layerHandles client) ∨
      ∃ c, h = .context c ∧
        c ∈ m.world.keptContexts (client.keeps m.client ++ stack.flatMap (layerHandles client))

theorem tidy_busyWith (h : m.isTidy client = true) (hheld : m.StillHeld client stack control)
    (hevents : m.stack.flatMap layerEvents = stack.flatMap layerEvents) :
    (m.busyWith stack control).isTidy client = true := by
  have hroots : (m.busyWith stack control).rootHandles client =
      client.keeps m.client ++ (control.handles ++ stack.flatMap (layerHandles client)) := by
    unfold rootHandles
    rw [List.append_assoc]
    rfl
  refine tidy_of_covered h rfl rfl (fun handle hmem => ?_) (hevents ▸ List.Subset.refl _)
  unfold rootHandles at hmem
  rw [List.append_assoc] at hmem
  rw [hroots]
  rcases List.mem_append.mp hmem with hmem | hmem
  · exact .inl (List.mem_append_left _ hmem)
  · rcases hheld handle hmem with hmem | ⟨c, rfl, hc⟩
    · exact .inl (List.mem_append_right _ hmem)
    · refine .inr ⟨c, rfl, World.keptContexts_mono (List.append_subset.mpr ⟨?_, ?_⟩) hc⟩
      · exact List.subset_append_left _ _
      · exact List.Subset.trans (List.subset_append_right _ _) (List.subset_append_right _ _)

theorem tidy_setClock (h : (m.busyWith stack control).isTidy client = true) (c : ContextId)
    (now : Nat) : ((m.setClock c now).busyWith stack control).isTidy client = true :=
  (isTidy_setClock (m.busyWith stack control) c now).trans h

end Machine

end ObjectSystem
