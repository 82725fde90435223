import ObjectSystem.Proofs.Shedding

/-!
# What reclaiming leaves behind

A state is tidy if nothing is to be reclaimed in it. Every round of reclaiming settles an open event
or drops an instance, so it lowers the *load* of the world (`load_reclaimOnce_lt`), and as many rounds
as the load leave a tidy state: every step ends in one (`tidy_step`).

In a tidy state, a change that keeps whatever was kept before leaves nothing to be reclaimed either
(`Machine.tidy_of_covered`).
-/

namespace ObjectSystem

variable {σ β κ : Type}

namespace World

variable {w : World β} {handles : List Handle} {events : List EventId}

/-! ## The load of a world -/

/-- What may become something to reclaim: open events and instances. -/
def load (w : World β) : Nat :=
  w.openEvents.length + w.instances.entries.length

theorem isOpen_eq_true {e : EventId} :
    w.isOpen e = true ↔ ∃ ev, w.events.find? e = some ev ∧ ev.isOpen = true := by
  unfold isOpen
  split
  · next ev hev => simp [hev]
  · next hnone => simp [hnone]

theorem keys_settle (w : World β) (e : EventId) (o : EventOutcome) :
    (w.settle e o).events.keys = w.events.keys := by
  refine settle_induction (P := fun v => v.events.keys = w.events.keys) w e o rfl
    fun event _ _ => ?_
  rw [events_wake]
  unfold Table.keys Table.set
  rw [List.map_map]
  refine List.map_congr_left fun entry _ => ?_
  simp only [Function.comp_apply]
  split <;> rfl

/-- Settling an event closes it and opens none. -/
theorem openEvents_settle (w : World β) (e : EventId) (o : EventOutcome) :
    (w.settle e o).openEvents = w.openEvents.filter (· ≠ e) := by
  unfold openEvents
  rw [keys_settle, List.filter_filter]
  refine List.filter_congr fun f _ => ?_
  by_cases hopen : ∃ ev, w.events.find? e = some ev ∧ ev.isOpen = true
  · obtain ⟨ev, hfind, hopen⟩ := hopen
    have hsettled := settled_settle hfind hopen o
    unfold isOpen
    rw [hsettled.event]
    by_cases hf : f = e
    · simp [hf, Event.settle, hopen]
    · simp [hf]
  · -- nothing is settled
    rw [settle_of_closed (fun ev hfind => by simpa using fun h => hopen ⟨ev, hfind, h⟩) o]
    by_cases hf : f = e
    · rw [hf, Bool.eq_false_iff.mpr fun h => hopen (isOpen_eq_true.mp h), Bool.and_false]
    · simp [hf]

theorem openEvents_abandonEvents (w : World β) (others : List EventId) :
    (w.abandonEvents others).openEvents =
      w.openEvents.filter (· ∉ w.lostEvents others) := by
  unfold abandonEvents
  generalize w.lostEvents others = lost
  induction lost generalizing w with
  | nil => exact (List.filter_eq_self.mpr fun _ _ => by simp).symm
  | cons e lost ih =>
      rw [List.foldl_cons, ih, openEvents_settle, List.filter_filter]
      refine List.filter_congr fun f _ => ?_
      simp [Bool.and_comm]

theorem length_wake (w : World β) (waiter : Option Waiter) :
    (w.wake waiter).instances.entries.length = w.instances.entries.length := by
  unfold wake
  split <;> rfl

theorem length_settle (w : World β) (e : EventId) (o : EventOutcome) :
    (w.settle e o).instances.entries.length = w.instances.entries.length := by
  refine settle_induction (P := fun v =>
    v.instances.entries.length = w.instances.entries.length) w e o rfl fun event _ _ => ?_
  rw [length_wake]
  exact List.length_map _

theorem length_abandonEvents (w : World β) (others : List EventId) :
    (w.abandonEvents others).instances.entries.length = w.instances.entries.length :=
  abandonEvents_induction (P := fun v =>
    v.instances.entries.length = w.instances.entries.length) w others rfl
    fun v e hv => (length_settle v e _).trans hv

theorem load_abandonEvents_le (w : World β) (others : List EventId) :
    (w.abandonEvents others).load ≤ w.load := by
  unfold load
  rw [openEvents_abandonEvents, length_abandonEvents]
  exact Nat.add_le_add_right (List.length_filter_le _ _) _

/-- Abandoning a lost event lowers the load. -/
theorem load_abandonEvents_lt {others : List EventId} (h : w.lostEvents others ≠ []) :
    (w.abandonEvents others).load < w.load := by
  obtain ⟨e, he⟩ := List.exists_mem_of_ne_nil _ h
  unfold load
  rw [openEvents_abandonEvents, length_abandonEvents]
  refine Nat.add_lt_add_right (List.length_filter_lt_length_iff_exists.mpr ⟨e, ?_, ?_⟩) _
  · exact (List.mem_filter.mp he).1
  · simpa using he

theorem abandonEvents_eq (h : w.lostEvents events = []) : w.abandonEvents events = w := by
  unfold abandonEvents
  rw [h]
  rfl

/-! ## Dropping -/

theorem load_dropInstance_lt {i : InstanceId} (h : ∃ x, (i, x) ∈ w.instances.entries) :
    (w.dropInstance i).load < w.load := by
  obtain ⟨x, hx⟩ := h
  refine Nat.add_lt_add_left (List.length_filter_lt_length_iff_exists.mpr ⟨(i, x), hx, ?_⟩) _
  simp

theorem load_sweep_le (handles : List Handle) (events : List EventId) (fuel : Nat) (w : World β)
    (debris : List (Debris β)) : (sweep handles events fuel w debris).load ≤ w.load := by
  refine sweep_induction (P := fun v => v.load ≤ w.load) ?_ ?_ fuel w debris (Nat.le_refl _)
  · exact fun v i _ hv =>
      Nat.le_trans (Nat.add_le_add_left (List.length_filter_le _ _) _) hv
  · exact fun v others _ hv => Nat.le_trans (load_abandonEvents_le v others) hv

theorem mem_of_instance? {i : InstanceId} {x : Instance β} (hx : w.instance? i = some x) :
    (i, x) ∈ w.instances.entries := by
  obtain ⟨before, after, hentries, -⟩ := List.lookup_eq_some_iff.mp hx
  rw [hentries]
  simp

/-- If an instance is not kept, then one is dropped, whatever references are let go of before. -/
theorem load_sweep_lt {fuel : Nat} (h : w.firstUnkept handles ≠ none) (refs : List InstanceId) :
    (sweep handles events (fuel + 1) w (refs.map .reference)).load < w.load := by
  induction refs with
  | nil =>
      obtain ⟨⟨i, x⟩, hfirst⟩ := Option.ne_none_iff_exists'.mp h
      rw [List.map_nil, sweep, hfirst]
      refine Nat.lt_of_le_of_lt (load_sweep_le _ _ _ _ _) (load_dropInstance_lt ⟨x, ?_⟩)
      exact List.mem_of_find?_eq_some hfirst
  | cons i refs ih =>
      rw [List.map_cons, sweep]
      split
      · exact ih
      · next x hx =>
          split
          · exact ih
          · exact Nat.lt_of_le_of_lt (load_sweep_le _ _ _ _ _)
              (load_dropInstance_lt ⟨x, mem_of_instance? hx⟩)

theorem load_dropUnkept_lt (h : w.firstUnkept handles ≠ none) (released : List InstanceId) :
    (w.dropUnkept handles events released).load < w.load := by
  unfold dropUnkept
  cases hlength : w.instances.entries.length with
  | zero =>
      unfold firstUnkept at h
      rw [List.length_eq_zero_iff.mp hlength] at h
      exact absurd rfl h
  | succ n => exact load_sweep_lt h released

end World

/-! ## Tidy states -/

namespace Machine

variable {client : Client σ β κ} {before m : Machine σ β κ}

theorem isTidy_iff : m.isTidy client = true ↔
    m.world.lostEvents (m.stack.flatMap layerEvents) = [] ∧
      m.world.firstUnkept (m.handles client) = none := by
  unfold isTidy
  rw [Bool.and_eq_true, List.isEmpty_iff, Option.isNone_iff_eq_none]

/-- A round of reclaiming lowers the load, unless there was nothing to reclaim. -/
theorem load_reclaimOnce_lt (before : Machine σ β κ) (h : ¬ m.isTidy client = true) :
    (reclaimOnce client before m).world.load < m.world.load := by
  rw [isTidy_iff] at h
  unfold reclaimOnce
  dsimp only
  by_cases hlost : m.world.lostEvents (m.stack.flatMap layerEvents) = []
  · have hkept : m.world.firstUnkept (m.handles client) ≠ none := fun hkept => h ⟨hlost, hkept⟩
    rw [World.abandonEvents_eq hlost]
    split
    · next hnone => exact absurd hnone hkept
    · exact World.load_dropUnkept_lt hkept _
  · have hlt := World.load_abandonEvents_lt hlost
    split
    · exact hlt
    · next hfirst => exact Nat.lt_trans (World.load_dropUnkept_lt (by simp [hfirst]) _) hlt

theorem tidy_reclaim (client : Client σ β κ) (before m : Machine σ β κ) :
    (reclaim client before m).isTidy client = true := by
  suffices ∀ rounds before m, m.world.load ≤ rounds →
      (reclaimWithin client rounds before m).isTidy client = true from
    this _ before m (Nat.le_refl _)
  intro rounds
  induction rounds with
  | zero =>
      intro before m hload
      refine Classical.byContradiction fun h => ?_
      exact Nat.not_lt_zero _ (Nat.lt_of_lt_of_le (load_reclaimOnce_lt before h) hload)
  | succ rounds ih =>
      intro before m hload
      unfold reclaimWithin
      split
      · next htidy => exact htidy
      · next h =>
          exact ih m _ (Nat.le_of_lt_succ (Nat.lt_of_lt_of_le (load_reclaimOnce_lt before h) hload))

/-- **Every step leaves a tidy state.** -/
theorem tidy_step (client : Client σ β κ) (m : Machine σ β κ) :
    (m.step client).isTidy client = true :=
  tidy_reclaim client m _

theorem reclaim_of_tidy (before : Machine σ β κ) (h : m.isTidy client = true) :
    reclaim client before m = m := by
  unfold reclaim
  generalize m.world.openEvents.length + m.world.instances.entries.length = rounds
  cases rounds with
  | zero => rfl
  | succ rounds =>
      unfold reclaimWithin
      rw [if_pos h]

/-! ## Tidy changes -/

/-- The handles in a state besides those of suspended tasks. -/
def rootHandles (client : Client σ β κ) (m : Machine σ β κ) : List Handle :=
  client.keeps m.client ++ m.control.handles ++ m.stack.flatMap (layerHandles client)

theorem handles_eq_append (client : Client σ β κ) (m : Machine σ β κ) :
    m.handles client = m.rootHandles client ++
      (m.suspended.filter (isHeld m.world (m.world.keptContexts (m.rootHandles client)))).reverse.flatMap
        fun s => client.holds s.rest ++ s.invocation.handles :=
  rfl

end Machine

namespace World

/-- Handles are covered by others: each is one of them, or a handle on a context that they keep. -/
def Covered (w : World β) (handles others : List Handle) : Prop :=
  ∀ h ∈ handles, h ∈ others ∨ ∃ c, h = .context c ∧ c ∈ w.keptContexts others

variable {w : World β} {handles others : List Handle}

theorem mem_keptContexts {c : ContextId} :
    c ∈ w.keptContexts handles ↔ ∃ h ∈ w.allHandles handles, w.contextOf? h = some c := by
  unfold keptContexts
  rw [List.mem_eraseDups, List.mem_filterMap]

theorem Covered.mem_allHandles (h : w.Covered handles others) {handle : Handle}
    (hmem : handle ∈ w.allHandles handles) :
    handle ∈ w.allHandles others ∨ ∃ c, handle = .context c ∧ c ∈ w.keptContexts others := by
  unfold allHandles at hmem ⊢
  rcases List.mem_append.mp hmem with hmem | hmem
  · exact (h handle hmem).imp (List.mem_append_left _) id
  · exact .inl (List.mem_append_right _ hmem)

theorem Covered.keptContexts (h : w.Covered handles others) {c : ContextId}
    (hc : c ∈ w.keptContexts handles) : c ∈ w.keptContexts others := by
  obtain ⟨handle, hmem, hcontext⟩ := mem_keptContexts.mp hc
  rcases h.mem_allHandles hmem with hmem | ⟨d, rfl, hd⟩
  · exact mem_keptContexts.mpr ⟨handle, hmem, hcontext⟩
  · cases hcontext
    exact hd

theorem keptContexts_mono (hsub : handles ⊆ others) {c : ContextId}
    (hc : c ∈ w.keptContexts handles) : c ∈ w.keptContexts others :=
  Covered.keptContexts (fun _ hmem => .inl (hsub hmem)) hc

theorem Covered.keptInstances (h : w.Covered handles others) {i : InstanceId}
    (hi : i ∈ w.keptInstances handles) : i ∈ w.keptInstances others := by
  obtain ⟨handle, hmem, htarget⟩ := mem_keptInstances.mp hi
  rcases h.mem_allHandles hmem with hmem | ⟨d, rfl, hd⟩
  · exact mem_keptInstances.mpr ⟨handle, hmem, htarget⟩
  · -- what a context keeps is kept whoever keeps the context
    have htasks : i ∈ w.contextTargets d := by
      simpa [targets, directTargets, contextOf?] using htarget
    exact List.mem_append_right _ (List.mem_flatMap.mpr ⟨d, hd, htasks⟩)

theorem Covered.firstUnkept (h : w.Covered handles others) (hkept : w.firstUnkept handles = none) :
    w.firstUnkept others = none := by
  unfold World.firstUnkept at hkept ⊢
  rw [List.find?_eq_none] at hkept ⊢
  intro entry hentry
  have hi := hkept entry hentry
  simp only [decide_eq_true_eq, Decidable.not_not] at hi ⊢
  exact h.keptInstances hi

/-- Setting a clock keeps what was kept. -/
theorem keptInstances_setTime (w : World β) (c : ContextId) (now : Nat) (handles : List Handle) :
    (w.setTime c now).keptInstances handles = w.keptInstances handles := by
  have htargets (d : ContextId) : (w.setTime c now).contextTargets d = w.contextTargets d := by
    unfold contextTargets setTime
    rw [context?_modifyContext]
    split
    · cases w.context? d <;> rfl
    · rfl
  show _ ++ ((w.keptContexts handles).flatMap (w.setTime c now).contextTargets) = _
  rw [funext htargets]
  rfl

end World

namespace Machine

variable {client : Client σ β κ} {m m' : Machine σ β κ}

theorem isHeld_setTime (w : World β) (c : ContextId) (now : Nat) (contexts : List ContextId)
    (s : Suspended κ) : isHeld (w.setTime c now) contexts s = isHeld w contexts s := by
  unfold isHeld World.setTime
  rw [World.context?_modifyContext]
  by_cases hs : s.context = c
  · rw [if_pos hs]
    cases w.context? s.context <;> rfl
  · rw [if_neg hs]

/-- The state with the clock of a context set. -/
def setClock (m : Machine σ β κ) (c : ContextId) (now : Nat) : Machine σ β κ :=
  { m with world := m.world.setTime c now }

/-- Setting a clock leaves a tidy state. -/
theorem isTidy_setClock (m : Machine σ β κ) (c : ContextId) (now : Nat) :
    (m.setClock c now).isTidy client = m.isTidy client := by
  have hhandles : (m.setClock c now).handles client = m.handles client := by
    unfold handles
    dsimp only [setClock]
    rw [funext (isHeld_setTime m.world c now _)]
    rfl
  have hkept := m.world.keptInstances_setTime c now (m.handles client)
  unfold isTidy World.firstUnkept
  rw [hhandles]
  dsimp only [setClock]
  rw [hkept]
  rfl

/-- A state whose handles and events cover those of a tidy state is tidy. -/
theorem tidy_of_covered (h : m.isTidy client = true) (hworld : m'.world = m.world)
    (hsuspended : m'.suspended = m.suspended)
    (hroots : m.world.Covered (m.rootHandles client) (m'.rootHandles client))
    (hevents : m.stack.flatMap layerEvents ⊆ m'.stack.flatMap layerEvents) :
    m'.isTidy client = true := by
  obtain ⟨hlost, hkept⟩ := isTidy_iff.mp h
  rw [isTidy_iff, hworld]
  constructor
  · unfold World.lostEvents at hlost ⊢
    rw [List.filter_eq_nil_iff] at hlost ⊢
    intro e he
    have hhandled := hlost e he
    simp only [List.mem_append, not_or, decide_eq_true_eq, not_and, Decidable.not_not] at hhandled ⊢
    exact fun hnot => hevents (hhandled hnot)
  · refine World.Covered.firstUnkept (fun handle hmem => ?_) hkept
    have hsub : m'.rootHandles client ⊆ m'.handles client := by
      rw [handles_eq_append]
      exact List.subset_append_left _ _
    rw [handles_eq_append] at hmem
    rcases List.mem_append.mp hmem with hmem | hmem
    · rcases hroots handle hmem with hmem | ⟨c, rfl, hc⟩
      · exact .inl (hsub hmem)
      · exact .inr ⟨c, rfl, World.keptContexts_mono hsub hc⟩
    · -- a suspended task is held by the same context
      refine .inl (List.mem_append_right _ ?_)
      obtain ⟨s, hs, hhandle⟩ := List.mem_flatMap.mp hmem
      refine List.mem_flatMap.mpr ⟨s, ?_, hhandle⟩
      rw [List.mem_reverse, List.mem_filter] at hs ⊢
      rw [hsuspended, hworld]
      refine ⟨hs.1, ?_⟩
      have hheld := hs.2
      unfold isHeld at hheld ⊢
      rw [Bool.and_eq_true, decide_eq_true_eq] at hheld ⊢
      exact ⟨hroots.keptContexts hheld.1, hheld.2⟩

end Machine

end ObjectSystem
