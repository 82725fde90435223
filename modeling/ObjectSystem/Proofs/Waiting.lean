import ObjectSystem.Proofs.Accuracy

/-!
# Sources that wait

A source that waits does so, with the same deadline and the same work, until it has its turn, is
removed by name, or the instance that it works for is disposed or replaces it: every other change of a
world leaves it alone. Starting an interval has one new source wait (`World.restartBurst_views`).
-/

namespace ObjectSystem

variable {σ β κ : Type}

open Machine (marks Reachable)

namespace World

/-- A source is attached, with its deadline and its work, and does not run. -/
def Waits (w : World β) (c : ContextId) (s : Source β) : Prop :=
  ∃ t, w.timetable? c = some t ∧ ∃ r ∈ t.sources,
    r.id = s.id ∧ r.kind = s.kind ∧ r.work = s.work ∧ r.readyAt = s.readyAt ∧ r.running = false

section
variable {v w : World β} {c : ContextId} {s : Source β} {i : InstanceId}

theorem Waits.of_eq (h : w.Waits c s) (hv : v.timetable? c = w.timetable? c) : v.Waits c s := by
  unfold Waits
  rw [hv]
  exact h

theorem Waits.steady (h : w.Waits c s) (hw : Steady w v) : v.Waits c s :=
  h.of_eq (hw.timetable c)

/-- A source that is among those of a changed context waits there. -/
theorem Waits.setContext {d : ContextId} {x y : MainContext β} (h : w.Waits c s)
    (hx : w.context? d = some x)
    (hy : d = c → ∀ r ∈ x.sources, r.id = s.id → r.running = false →
      ∃ r' ∈ y.sources, r'.id = r.id ∧ r'.kind = r.kind ∧ r'.work = r.work ∧
        r'.readyAt = r.readyAt ∧ r'.running = false) :
    (w.setContext d y).Waits c s := by
  obtain ⟨t, ht, r, hr, hid, hkind, hwork, hready, hrun⟩ := h
  have ht' := timetable?_setContext w hx (y := y) (d := c)
  split at ht'
  · next hd =>
      subst hd
      obtain rfl := Option.some.inj (ht.symm.trans (timetable?_eq hx))
      obtain ⟨r', hr', hid', hkind', hwork', hready', hrun'⟩ := hy rfl r hr hid hrun
      exact ⟨_, ht', r', hr', hid'.trans hid, hkind'.trans hkind, hwork'.trans hwork,
        hready'.trans hready, hrun'⟩
  · exact ⟨t, ht'.trans ht, r, hr, hid, hkind, hwork, hready, hrun⟩

theorem Waits.modifyContext {d : ContextId} {f : MainContext β → MainContext β} (h : w.Waits c s)
    (hf : d = c → ∀ x, w.context? d = some x → ∀ r ∈ x.sources, r.id = s.id → r.running = false →
      ∃ r' ∈ (f x).sources, r'.id = r.id ∧ r'.kind = r.kind ∧ r'.work = r.work ∧
        r'.readyAt = r.readyAt ∧ r'.running = false) :
    (w.modifyContext d f).Waits c s := by
  obtain ⟨t, ht, r, hr, hid, hkind, hwork, hready, hrun⟩ := h
  obtain ⟨x, hx, rfl⟩ := Option.map_eq_some_iff.mp ht
  have hx' := context?_modifyContext w d c f
  split at hx'
  · next hd =>
      subst hd
      rw [hx] at hx'
      obtain ⟨r', hr', hid', hkind', hwork', hready', hrun'⟩ := hf rfl x hx r hr hid hrun
      exact ⟨_, timetable?_eq hx', r', hr', hid'.trans hid, hkind'.trans hkind,
        hwork'.trans hwork, hready'.trans hready, hrun'⟩
  · exact ⟨_, timetable?_eq (hx'.trans hx), r, hr, hid, hkind, hwork, hready, hrun⟩

theorem Waits.addContext (h : w.Waits c s) (config : Config) :
    (w.addContext config).1.Waits c s := by
  obtain ⟨t, ht, hr⟩ := h
  refine ⟨t, ?_, hr⟩
  rw [timetable?_addContext, ht]
  rfl

theorem Waits.setTime (h : w.Waits c s) (d : ContextId) (now : Nat) : (w.setTime d now).Waits c s :=
  h.modifyContext fun _ _ _ r hr _ hrun => ⟨r, hr, rfl, rfl, rfl, rfl, hrun⟩

theorem Waits.attachNow (h : w.Waits c s) {d : ContextId} {x : MainContext β}
    (hx : w.context? d = some x) (kind : SourceKind) (priority : Priority) (work : SourceWork β) :
    (w.setContext d (x.attachNow kind priority work).1).Waits c s :=
  h.setContext hx fun _ r hr _ hrun =>
    ⟨r, List.mem_append_left _ hr, rfl, rfl, rfl, rfl, hrun⟩

theorem Waits.detachSources (h : w.Waits c s) {d : ContextId} {ids : List SourceId}
    (hid : d = c → s.id ∉ ids) : (w.detachSources d ids).Waits c s := by
  refine h.modifyContext fun hd x _ r hr hsame hrun => ⟨r, ?_, rfl, rfl, rfl, rfl, hrun⟩
  have hmem : r ∈ (ids.foldl Timetable.detach x.timetable).sources :=
    mem_foldl_detach.mpr ⟨hr, hsame ▸ hid hd⟩
  rwa [← x.timetable_foldl_detach ids] at hmem

theorem Waits.detach (h : w.Waits c s) {d : ContextId} {x : MainContext β}
    (hx : w.context? d = some x) {id : SourceId} (hid : d = c → s.id ≠ id) :
    (w.setContext d (x.detach id)).Waits c s := by
  refine h.setContext hx fun hd r hr hsame hrun => ⟨r, ?_, rfl, rfl, rfl, rfl, hrun⟩
  exact List.mem_filter.mpr ⟨hr, by simpa [hsame] using hid hd⟩

theorem Waits.collectReady (h : w.Waits c s) {d : ContextId} {x : MainContext β}
    (hx : w.context? d = some x) : (w.setContext d x.collectReady.1).Waits c s :=
  h.setContext hx fun _ r hr _ hrun => ⟨r, hr, rfl, rfl, rfl, rfl, hrun⟩

theorem Waits.beginRun (h : w.Waits c s) {d : ContextId} {x y : MainContext β} {id : SourceId}
    {work : SourceWork β} (hx : w.context? d = some x) (hb : x.beginRun id = some (y, work))
    (hid : d = c → s.id ≠ id) : (w.setContext d y).Waits c s := by
  obtain ⟨-, -, -, -, hy⟩ := MainContext.of_beginRun hb
  refine h.setContext hx fun hd r hr hsame hrun => ⟨r, ?_, rfl, rfl, rfl, rfl, hrun⟩
  show r ∈ y.timetable.sources
  rw [hy]
  exact Timetable.mem_modify.mpr ⟨r, hr, if_neg fun heq => hid hd (hsame.symm.trans heq)⟩

/-- A source that has run is not one that waits. -/
theorem Waits.endRun (h : w.Waits c s) {d : ContextId} {id : SourceId} (stays : Bool)
    (hid : d = c → ∀ x, w.context? d = some x → ∀ r ∈ x.sources, r.id = id → r.running = true) :
    (w.modifyContext d (·.endRun id stays)).Waits c s := by
  refine h.modifyContext fun hd x hx r hr _ hrun => ⟨r, ?_, rfl, rfl, rfl, rfl, hrun⟩
  have hne : r.id ≠ id := by
    intro heq
    have := hid hd x hx r hr heq
    rw [hrun] at this
    cases this
  unfold MainContext.endRun
  split
  · exact List.mem_map.mpr ⟨r, hr, if_neg hne⟩
  · exact List.mem_filter.mpr ⟨hr, by simpa using hne⟩

theorem Waits.scheduleHooks (h : w.Waits c s) (i : InstanceId) (x : Instance β) :
    (w.scheduleHooks i x).Waits c s := by
  refine scheduleHooks_induction w i x h fun v typeName hook hv => ?_
  refine scheduleReady_induction v i typeName hook hv fun z y _ hy => ?_
  exact hv.attachNow hy .idle .standard _

/-- A source that waits is devoted to no other work than its own. -/
theorem Waits.entry_eq (h : w.Waits c s) {j : InstanceId} {name? : Option String}
    (hd : w.Devotes c s.id j name?) : s.work.entry? = some (j, name?) := by
  obtain ⟨t, ht, r, hr, hid, -, hwork, -, -⟩ := h
  obtain ⟨u, hu, -, hall⟩ := hd
  obtain rfl := Option.some.inj (ht.symm.trans hu)
  rw [← hwork]
  exact hall r hr hid

/-- What a disposal removes is on record. -/
theorem lists_of_mem_deferredSources {x : Instance β} {id : SourceId}
    (h : id ∈ x.deferredSources) : ∃ name?, x.duties.Lists id name? := by
  rcases List.mem_append.mp h with hready | hpending
  · exact ⟨none, hready⟩
  · obtain ⟨burst, hburst, hid⟩ := List.mem_filterMap.mp hpending
    obtain ⟨⟨name, burst⟩, hmem, rfl⟩ := List.mem_map.mp hburst
    exact ⟨some name, burst, hmem, hid⟩

/-- The disposal of another instance leaves a source alone. -/
theorem Waits.dispose (h : w.Waits c s) (hw : w.Accurate) {name? : Option String}
    (hentry : s.work.entry? = some (i, name?)) {j : InstanceId} (hne : j ≠ i) :
    (w.dispose j).Waits c s := by
  refine dispose_induction w j h fun x hx _ => ?_
  refine Waits.of_eq (h.detachSources fun hcontext hmem => ?_) rfl
  obtain ⟨other?, hlists⟩ := lists_of_mem_deferredSources hmem
  have hdevotes := hw j x.duties (duties?_eq hx) s.id other? hlists
  rw [show x.duties.context = c from hcontext] at hdevotes
  have hown := h.entry_eq hdevotes
  rw [hentry] at hown
  cases hown
  exact hne rfl

/-- The timer of another method leaves a source alone. -/
theorem Waits.restartBurst (h : w.Waits c s) (hw : w.Accurate) {name? : Option String}
    (hentry : s.work.entry? = some (i, name?)) {j : InstanceId} {name : String}
    (hne : (j, some name) ≠ (i, name?)) (debounce : Debounce) (callback : β) :
    (w.restartBurst j name debounce callback).Waits c s := by
  refine restartBurst_induction w j name debounce callback h fun x y hx hy => ?_
  have hdetached : (w.detachSources x.context (x.burst name).pending.toList).Waits c s := by
    refine h.detachSources fun hcontext hmem => ?_
    have hpending : (x.duties.burst name).pending = some s.id := Option.mem_toList.mp hmem
    have hdevotes := hw j x.duties (duties?_eq hx) s.id (some name)
      (Duties.lists_of_pending hpending)
    rw [show x.duties.context = c from hcontext] at hdevotes
    have hown := h.entry_eq hdevotes
    rw [hentry] at hown
    exact hne (Option.some.inj hown).symm
  exact hdetached.attachNow hy (.timeout debounce.interval) .standard _

/-- Starting an interval has a new timer wait, which is on record. -/
theorem restartBurst_views {x : Instance β} (hx : w.instance? i = some x) {t : Timetable β}
    (ht : w.timetable? x.context = some t) (name : String) (debounce : Debounce) (callback : β) :
    (∀ e', (w.restartBurst i name debounce callback).duties? i = some e' →
        e'.burst name = { x.duties.burst name with pending := some ⟨t.nextSource⟩ }) ∧
      (w.restartBurst i name debounce callback).Waits x.context (t.fresh
        (.timeout debounce.interval) .standard
        (.endOfBurst i name debounce.trigger callback)) := by
  obtain ⟨y, hy, rfl⟩ := Option.map_eq_some_iff.mp ht
  have hdetached := context?_detachSources hy (x.burst name).pending.toList
  rw [restartBurst_eq hx hy]
  generalize hz : (x.burst name).pending.toList.foldl MainContext.detach y = z at hdetached ⊢
  have hnow : z.timetable.now = y.timetable.now := by
    rw [← hz, MainContext.timetable_foldl_detach]
    exact (Timetable.edited_foldl_detach _ _).now
  have hnext : z.timetable.nextSource = y.timetable.nextSource := by
    rw [← hz, MainContext.timetable_foldl_detach]
    exact Timetable.nextSource_foldl_detach _ _
  refine ⟨fun e' he' => ?_, ?_⟩
  · have hsame (u : MainContext β) : ((w.detachSources x.context
        (x.burst name).pending.toList).setContext x.context u).instance? i = some x := hx
    rw [duties?_modifyInstance, if_pos rfl, hsame] at he'
    obtain rfl := Option.some.inj he'
    rw [Duties.burst_setBurst, if_pos rfl, ← hnext]
    rfl
  · have hset := timetable?_setContext
      (w.detachSources x.context (x.burst name).pending.toList) hdetached
      (y := (z.attachNow (.timeout debounce.interval) .standard
        (.endOfBurst i name debounce.trigger callback)).1) (d := x.context)
    rw [if_pos rfl] at hset
    refine ⟨_, hset, _, List.mem_append_right _ (List.mem_singleton.mpr rfl), ?_⟩
    refine ⟨congrArg SourceId.mk hnext, rfl, rfl, ?_, rfl⟩
    exact congrArg (· + debounce.interval) hnow

end

end World

end ObjectSystem
