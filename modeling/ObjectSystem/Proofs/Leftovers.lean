import ObjectSystem.Proofs.Estate
import ObjectSystem.Proofs.Lagging
import ObjectSystem.Proofs.Leading
import ObjectSystem.Proofs.Punctual
import ObjectSystem.Proofs.Teardown

/-!
# What finished bursts keep

A burst records the arguments of the call that waits for its end. When the timer goes off, it lets go
of them; when the instance is disposed, only the timer is taken away, and the recorded arguments stay
(`disposal_keeps_arguments`). So an instance that was passed to a debounced method of its own and is
disposed in time keeps itself alive for good.

`Machine.Tends` lists what a step may do for a method. The timers of a method go by its trigger
(`Machine.Timed`), so a timer that goes off finds no call waiting that it would leave behind. With
that, `Machine.Alters` lists what a step does to one burst, and `Machine.waits_iff_stranded` follows
by induction on the run: in a burst without a timer a call waits exactly if a disposal *stranded* it,
and no timer of the method has gone off since. `finished_bursts_keep_nothing` is the contract.
-/

namespace ObjectSystem

variable {σ β κ : Type}

open Machine (marks Reachable)

/-! ## Bursts -/

/-- The trigger of a debounced method. -/
def Class.trigger? (c : Class β) (name : String) : Option Trigger :=
  (c.findMethod? name).bind fun method => method.debounce.map (·.trigger)

theorem Class.trigger?_eq {c : Class β} {name : String} {callback : β} {d : Debounce}
    (h : c.findMethod? name = some ⟨callback, some d⟩) : c.trigger? name = some d.trigger := by
  unfold trigger?
  rw [h]
  rfl

/-- Arguments are recorded exactly if a call waits, and only under a trigger that has it run. -/
structure Duties.Consistent (e : Duties β) (name : String) : Prop where
  recorded : (e.burst name).lastArgs.isSome = (e.burst name).trailing
  trailing : (e.burst name).trailing = true →
    ∃ trigger, e.ofClass.trigger? name = some trigger ∧ trigger.isTrailing = true

/-- A call waits only if the trigger of the method is a trailing one. -/
theorem Duties.Consistent.isTrailing {e : Duties β} {name : String} (h : e.Consistent name)
    {trigger : Trigger} (htrigger : e.ofClass.trigger? name = some trigger)
    (htrailing : (e.burst name).trailing = true) : trigger.isTrailing = true := by
  obtain ⟨other, hother, htrails⟩ := h.trailing htrailing
  cases htrigger.symm.trans hother
  exact htrails

namespace Burst

/-- A call that runs at once is not recorded. -/
theorem record_of_runsAtOnce {burst : Burst} {trigger : Trigger}
    (h : burst.runsAtOnce trigger = true) (args : List Value) : burst.record trigger args = burst := by
  unfold record
  rw [h]
  rfl

/-- A call is recorded if the trigger has it run at the end, or not at all. -/
theorem record_eq (burst : Burst) (trigger : Trigger) (args : List Value) :
    burst.record trigger args = burst ∨
      trigger.isTrailing = true ∧ (burst.record trigger args).lastArgs = some args ∧
        (burst.record trigger args).trailing = true := by
  unfold record
  split
  · next h => exact .inr ⟨((Bool.and_eq_true _ _).mp h).2, rfl, rfl⟩
  · exact .inl rfl

/-- The end of a burst leaves nothing if no call waits that the trigger would not run. -/
theorem finish_keeps_nothing {burst : Burst} {trigger : Trigger}
    (h : burst.trailing = true → trigger.isTrailing = true) :
    (burst.finish trigger).1.lastArgs = none ∧ (burst.finish trigger).1.trailing = false := by
  unfold finish
  split
  · exact ⟨rfl, rfl⟩
  · next hnot => exact ⟨rfl, Bool.eq_false_iff.mpr fun htrailing => hnot (h htrailing)⟩

end Burst

theorem NameTable.find?_map {α γ : Type} (f : α → γ) (t : NameTable α) (name : String) :
    (t.map f).find? name = (t.find? name).map f := by
  unfold map find?
  induction t.entries with
  | nil => rfl
  | cons entry rest ih =>
    rw [List.map_cons, List.lookup_cons, List.lookup_cons, ih]
    split <;> rfl

/-- Disposal takes the timer of a burst and leaves the rest. -/
theorem Duties.burst_dispose (x : Instance β) (name : String) :
    x.dispose.duties.burst name = { x.duties.burst name with pending := none } := by
  unfold Duties.burst
  rw [show x.dispose.duties.bursts = x.bursts.map fun burst => { burst with pending := none } from rfl,
    NameTable.find?_map, show x.duties.bursts = x.bursts from rfl]
  cases x.bursts.find? name <;> rfl

/-- A call that runs at once leaves its burst as it is. -/
theorem World.sameBurst_record {w : World β} {i : InstanceId} {x : Instance β} {name : String}
    {trigger : Trigger} (hx : w.instance? i = some x)
    (h : (x.burst name).runsAtOnce trigger = true) (args : List Value) :
    World.SameBurst i name w
      (w.modifyInstance i (·.setBurst name ((x.burst name).record trigger args))) := by
  intro _ e' he'
  rw [duties?_modifyInstance, if_pos rfl, hx] at he'
  obtain rfl := Option.some.inj he'
  refine ⟨x.duties, duties?_eq hx, ?_⟩
  rw [Duties.burst_setBurst, if_pos rfl, Burst.record_of_runsAtOnce h]
  rfl

/-! ## Identities -/

namespace World

theorem nextInstance_dispose (w : World β) (i : InstanceId) :
    (w.dispose i).nextInstance = w.nextInstance :=
  dispose_induction (P := fun v => v.nextInstance = w.nextInstance) w i rfl fun _ _ _ => rfl

theorem nextInstance_startWork (w : World β) (c : ContextId) (id : SourceId)
    (work : SourceWork β) : (w.startWork c id work []).world.nextInstance = w.nextInstance :=
  startWork_induction (P := fun v => v.nextInstance = w.nextInstance) w c id work [] rfl
    (fun _ _ _ _ => rfl) fun _ _ _ _ _ _ => rfl

end World

/-! ## Timers go by the trigger -/

namespace World

/-- A method is debounced with a trigger; it says nothing if the instance is not there. -/
def Triggers (w : World β) (i : InstanceId) (name : String) (trigger : Trigger) : Prop :=
  i.number < w.nextInstance ∧
    ∀ e, w.duties? i = some e → e.ofClass.trigger? name = some trigger

/-- Every timer of a method was there before. -/
def OldTimers (i : InstanceId) (name : String) (w v : World β) : Prop :=
  ∀ c t', v.timetable? c = some t' → ∀ s' ∈ t'.sources, s'.work.entry? = some (i, some name) →
    ∃ t, w.timetable? c = some t ∧ ∃ s ∈ t.sources, s.work = s'.work

section
variable {u v w : World β} {i j : InstanceId} {name other : String}

theorem Triggers.ages {trigger : Trigger} (h : w.Triggers i name trigger) (ha : Ages w v) :
    v.Triggers i name trigger := by
  refine ⟨Nat.lt_of_lt_of_le h.1 ha.next, fun e' he' => ?_⟩
  obtain ⟨e, he, haged⟩ := (ha.ages i e' he').resolve_right (Nat.not_le_of_lt h.1)
  rw [haged.ofClass]
  exact h.2 e he

theorem Triggers.of_findMethod? {x : Instance β} {callback : β} {d : Debounce}
    (hlt : i.number < w.nextInstance) (hx : w.instance? i = some x)
    (hmethod : x.ofClass.findMethod? name = some ⟨callback, some d⟩) :
    w.Triggers i name d.trigger := by
  refine ⟨hlt, fun e he => ?_⟩
  obtain rfl := Option.some.inj ((duties?_eq hx).symm.trans he)
  exact Class.trigger?_eq hmethod

theorem OldTimers.trans (h : OldTimers i name u v) (g : OldTimers i name v w) :
    OldTimers i name u w := by
  intro c t'' ht'' s'' hs'' hentry
  obtain ⟨t', ht', s', hs', hwork'⟩ := g c t'' ht'' s'' hs'' hentry
  obtain ⟨t, ht, s, hs, hwork⟩ := h c t' ht' s' hs' (hwork' ▸ hentry)
  exact ⟨t, ht, s, hs, hwork.trans hwork'⟩

theorem Inherits.oldTimers (h : Inherits i w v) : OldTimers i name w v := by
  intro c t' ht' s' hs' hentry
  obtain ⟨trigger, callback, hwork'⟩ := SourceWork.of_entry? hentry
  obtain ⟨t, ht, s, hs, -, hwork, -⟩ := h c t' ht' s' hs' (by rw [hwork']; rfl)
  exact ⟨t, ht, s, hs, hwork.symm⟩

theorem Steady.oldTimers (h : Steady w v) : OldTimers i name w v :=
  (inherits_of_eq h.timetable).oldTimers

theorem oldTimers_attachNow {c : ContextId} {y : MainContext β} (hy : w.context? c = some y)
    (kind : SourceKind) (priority : Priority) {work : SourceWork β}
    (hne : work.entry? ≠ some (i, some name)) :
    OldTimers i name w (w.setContext c (y.attachNow kind priority work).1) := by
  intro d t' ht' s hs hentry
  rcases mem_attachNow hy ht' hs with ⟨t, ht, hmem⟩ | ⟨-, rfl⟩
  · exact ⟨t, ht, s, hmem, rfl⟩
  · exact absurd hentry hne

theorem oldTimers_scheduleHooks (w : World β) (j : InstanceId) (x : Instance β) :
    OldTimers i name w (w.scheduleHooks j x) := by
  refine scheduleHooks_induction w j x (inherits_of_eq fun _ => rfl).oldTimers
    fun v typeName hook hv => hv.trans ?_
  refine scheduleReady_induction v j typeName hook (inherits_of_eq fun _ => rfl).oldTimers
    fun z y _ hy => ?_
  refine oldTimers_attachNow hy .idle .standard fun hentry => ?_
  cases hentry

/-- The timer that starts an interval is of its method. -/
theorem mem_restartBurst {debounce : Debounce} {callback : β} {c : ContextId} {t' : Timetable β}
    (ht' : (w.restartBurst j other debounce callback).timetable? c = some t') {s : Source β}
    (hs : s ∈ t'.sources) :
    (∃ t, w.timetable? c = some t ∧ s ∈ t.sources) ∨
      s.work = .endOfBurst j other debounce.trigger callback := by
  revert ht'
  refine restartBurst_induction w j other debounce callback (fun ht' => .inl ⟨t', ht', hs⟩)
    fun x y _ hy ht' => ?_
  rcases mem_attachNow hy (show (World.setContext _ _
      (y.attachNow (.timeout debounce.interval) .standard _).1).timetable? c = some t' from ht') hs
    with ⟨t, ht, hmem⟩ | ⟨-, rfl⟩
  · obtain ⟨t₀, ht₀, hmem₀, -⟩ := mem_detachSources ht hmem
    exact .inl ⟨t₀, ht₀, hmem₀⟩
  · exact .inr rfl

theorem oldTimers_restartBurst (w : World β) (hne : (j, other) ≠ (i, name)) (debounce : Debounce)
    (callback : β) : OldTimers i name w (w.restartBurst j other debounce callback) := by
  intro c t' ht' s hs hentry
  rcases mem_restartBurst ht' hs with ⟨t, ht, hmem⟩ | hwork
  · exact ⟨t, ht, s, hmem, rfl⟩
  · rw [hwork] at hentry
    cases hentry
    exact absurd rfl hne

end

end World

/-! ## Steps -/

namespace Machine

/-- What a step does for a method of an instance. -/
inductive Tends (client : Client σ β κ) (m : Machine σ β κ) (i : InstanceId) (name : String) : Prop
  /-- Nothing. -/
  | leaves (hburst : World.SameBurst i name m.world (m.step client).world)
      (htimers : World.OldTimers i name m.world (m.step client).world)
      (hstarting : (m.step client).starting i name = m.starting i name)
      (hfires : ¬ m.Fires client i name)
  /-- The instance is disposed. -/
  | disposes (hm : m.control = .perform (.dispose i))
      (hw : World.Steady (m.world.dispose i) (m.step client).world)
      (hstarting : (m.step client).starting i name = m.starting i name)
      (hfires : ¬ m.Fires client i name)
  /-- A call runs at once. -/
  | leads (x : Instance β) (callback : β) (d : Debounce)
      (hx : m.world.instance? i = some x)
      (hmethod : x.ofClass.findMethod? name = some ⟨callback, some d⟩)
      (hburst : World.SameBurst i name m.world (m.step client).world)
      (htimers : World.OldTimers i name m.world (m.step client).world)
      (hstarting : (m.step client).starting i name =
        .startInterval i name d callback :: m.starting i name)
      (hfires : ¬ m.Fires client i name)
  /-- A call has the interval start anew. -/
  | delays (args : List Value) (x : Instance β) (callback : β) (d : Debounce)
      (hx : m.world.instance? i = some x)
      (hmethod : x.ofClass.findMethod? name = some ⟨callback, some d⟩)
      (hw : World.Steady ((m.world.modifyInstance i
        (·.setBurst name ((x.burst name).record d.trigger args))).restartBurst i name d callback)
          (m.step client).world)
      (hstarting : (m.step client).starting i name = m.starting i name)
  /-- After a run at once, the interval starts. -/
  | starts (d : Debounce) (callback : β)
      (hw : World.Steady (m.world.restartBurst i name d callback) (m.step client).world)
      (hstarting : m.starting i name =
        .startInterval i name d callback :: (m.step client).starting i name)
  /-- The timer goes off. -/
  | fires (c : ContextId) (x y : MainContext β) (s : Source β) (trigger : Trigger) (callback : β)
      (hx : m.world.context? c = some x) (hs : s ∈ x.timetable.sources) (hidle : s.running = false)
      (hwork : s.work = .endOfBurst i name trigger callback)
      (hw : World.Steady ((m.world.setContext c y).startWork c s.id s.work []).world
        (m.step client).world)
      (htimers : World.OldTimers i name m.world (m.step client).world)
      (hstarting : (m.step client).starting i name = m.starting i name)
      (hfires : m.Fires client i name)

section
variable {client : Client σ β κ} {m : Machine σ β κ} {i : InstanceId} {name : String}

/-- Only a source that starts adds one to those that run. -/
theorem not_fires_of_marks (below above : List (Frame β)) {rest : List (Frame β)}
    (hs : marks m.stack = below ++ rest)
    (hs' : marks (m.step client).stack = above ++ rest)
    (habove : ∀ f ∈ above, ∀ c, f.running c = []) : ¬ m.Fires client i name := by
  rintro ⟨c, id, s, -, -, hstarts⟩
  have hnone : above.flatMap (·.running c) = [] :=
    List.flatMap_eq_nil_iff.mpr fun f hf => habove f hf c
  unfold StartsWork working at hstarts
  rw [(desk_of_marks hs' c).2, (desk_of_marks hs c).2, List.flatMap_append, List.flatMap_append,
    hnone, List.nil_append] at hstarts
  have hlength := congrArg List.length hstarts
  simp only [List.length_map, List.length_cons, List.length_append] at hlength
  omega

/-- **Every step does one of these things for a method.** -/
theorem tends_step (hreach : Reachable client m) (i : InstanceId) (name : String) :
    m.Tends client i name := by
  -- a change that has nothing to do with the method
  have leave {w : World β} (hw : World.Steady w (m.step client).world)
      (hn : m.world.nextInstance ≤ w.nextInstance) (hburst : World.SameBurst i name m.world w)
      (htimers : World.OldTimers i name m.world w)
      (hstarting : (m.step client).starting i name = m.starting i name)
      (hfires : ¬ m.Fires client i name) : m.Tends client i name :=
    .leaves (hburst.steady hn hw) (htimers.trans hw.oldTimers) hstarting hfires
  have edit {w : World β} (hw : World.Steady w (m.step client).world)
      (hn : w.nextInstance = m.world.nextInstance) (hd : ∀ j, w.duties? j = m.world.duties? j)
      (htimers : World.OldTimers i name m.world w)
      (hs : marks (m.step client).stack = marks m.stack) : m.Tends client i name :=
    leave hw (Nat.le_of_eq hn.symm) (World.sameBurst_of_eq hd) htimers (starting_eq hs) (not_fires hs)
  have still {w : World β} (hc : ∀ c, w.timetable? c = m.world.timetable? c) :
      World.OldTimers i name m.world w := (World.inherits_of_eq hc).oldTimers
  have popped {f : Frame β} (hs : marks m.stack = f :: marks (m.step client).stack) :
      ¬ m.Fires client i name :=
    not_fires_of_marks [f] [] hs rfl (List.forall_mem_nil _)
  have pushed {f : Frame β} (hs : marks (m.step client).stack = f :: marks m.stack)
      (hf : ∀ c, f.running c = []) : ¬ m.Fires client i name :=
    not_fires_of_marks [] [f] rfl hs (List.forall_mem_singleton.mpr hf)
  cases turn_step client m with
  | still hw hs hc => exact edit hw rfl (fun _ => rfl) (still fun _ => rfl) hs
  | opens config hw hs hc =>
    exact edit hw rfl (fun _ => rfl) (World.inherits_addContext config).oldTimers hs
  | ticks c now hm hw hs hc =>
    exact edit hw rfl (fun _ => rfl) (World.inherits_setTime c now).oldTimers hs
  | attaches c x kind priority work hx hp hw hs hc =>
    refine edit hw rfl (fun _ => rfl) (World.inherits_attachNow hx kind priority ?_).oldTimers hs
    rw [SourceWork.owner?_of_isPlain hp]
    exact nofun
  | detaches c x id hm hx hw hs hc =>
    exact edit hw rfl (fun _ => rfl) (World.inherits_detach hx id).oldTimers hs
  | creates ofClass c hw hs hc =>
    rcases hs with hs | ⟨g, hg, hs⟩
    · exact leave hw (Nat.le_succ _) (World.sameBurst_addInstance _ ofClass c) (still fun _ => rfl)
        (starting_eq hs) (not_fires hs)
    · refine leave hw (Nat.le_succ _) (World.sameBurst_addInstance _ ofClass c) (still fun _ => rfl)
        ?_ (pushed hs hg.running)
      rw [starting_eq hs, filter_starts_of_construction hg]
      rfl
  | disposes j hm hw hs hc =>
    by_cases hji : j = i
    · subst hji
      exact .disposes hm hw (starting_eq hs) (not_fires hs)
    · exact leave hw (World.ages_dispose _ j).next (World.sameBurst_dispose _ hji)
        (World.inherits_dispose _ j i).oldTimers (starting_eq hs) (not_fires hs)
  | calls j other args x callback hm hx hd hf hw hs hc =>
    exact edit hw rfl (fun _ => rfl) (still fun _ => rfl) hs
  | callsAtOnce j other args x callback d hm hx hd hf hr hw hs hc =>
    by_cases hpair : (j, other) = (i, name)
    · cases hpair
      refine .leads x callback d hx hf ((World.sameBurst_record hx hr args).steady (Nat.le_refl _) hw)
        (World.OldTimers.trans (still fun _ => rfl) hw.oldTimers) ?_ (pushed hs fun _ => rfl)
      rw [starting_eq hs]
      exact filter_starts_self d callback _
    · refine leave hw (Nat.le_refl _) (World.sameBurst_setBurst _ hpair _) (still fun _ => rfl) ?_
        (pushed hs fun _ => rfl)
      rw [starting_eq hs, filter_starts_of_ne hpair]
      rfl
  | callsLater j other args x callback d hm hx hd hf hr hw hs hc =>
    by_cases hpair : (j, other) = (i, name)
    · cases hpair
      exact .delays args x callback d hx hf hw (starting_eq hs)
    · exact leave hw ((World.ages_setBurst _ j other _).trans
          (World.ages_restartBurst _ j other d callback)).next
        ((World.sameBurst_setBurst _ hpair _).trans (Nat.le_refl _)
          (World.sameBurst_restartBurst _ hpair d callback))
        (World.OldTimers.trans (still fun _ => rfl)
          (World.oldTimers_restartBurst _ hpair d callback)) (starting_eq hs) (not_fires hs)
  | startsInterval j other d callback hw hs hc =>
    by_cases hpair : (j, other) = (i, name)
    · cases hpair
      refine .starts d callback hw ?_
      rw [starting_eq hs]
      exact filter_starts_self d callback _
    · refine leave hw (World.ages_restartBurst _ j other d callback).next
        (World.sameBurst_restartBurst _ hpair d callback)
        (World.oldTimers_restartBurst _ hpair d callback) ?_ (popped hs)
      rw [starting_eq hs, filter_starts_of_ne hpair]
      rfl
  | constructs f rest j hf hw hs hs' hc =>
    have hfires : ¬ m.Fires client i name := by
      rcases hs' with hs' | ⟨g, hg, hs'⟩
      · exact not_fires_of_marks [f] [] hs hs' (List.forall_mem_nil _)
      · exact not_fires_of_marks [f] [g] hs hs'
          (List.forall_mem_singleton.mpr hg.running)
    refine leave hw (Nat.le_refl _) (World.sameBurst_of_eq fun _ => rfl) (still fun _ => rfl) ?_ hfires
    rw [starting_eq hs, filter_starts_of_construction hf]
    rcases hs' with hs' | ⟨g, hg, hs'⟩
    · exact starting_eq hs'
    · rw [starting_eq hs', filter_starts_of_construction hg]
  | schedules j x hx hw hs hc =>
    refine leave hw (World.ages_scheduleHooks _ j x).next (World.sameBurst_scheduleHooks _ j x)
      (World.oldTimers_scheduleHooks _ j x) ?_ (popped hs)
    rw [starting_eq hs]
    rfl
  | collects c x worked hx hw hs hc =>
    exact leave hw (Nat.le_refl _) (World.sameBurst_of_eq fun _ => rfl)
      (World.inherits_collectReady hx).oldTimers ((starting_eq hs).trans rfl)
      (pushed hs fun _ => rfl)
  | skips c id ready worked rest hx hw hs hs' hc =>
    refine leave hw (Nat.le_refl _) (World.sameBurst_of_eq fun _ => rfl) (still fun _ => rfl)
      ((starting_eq hs').trans (starting_eq hs).symm) ?_
    exact not_fires_of_marks [_] [_] hs hs'
      (List.forall_mem_singleton.mpr fun _ => rfl)
  | begins c id ready worked rest x y work hx hb hw hs hs' hc =>
    have hstarting : (m.step client).starting i name = m.starting i name :=
      (starting_eq hs').trans (starting_eq hs).symm
    obtain ⟨s, hsource, hidle, rfl, hy⟩ := MainContext.of_beginRun hb
    obtain ⟨hmem, rfl⟩ := Timetable.mem_of_source? hsource
    have hfound : m.source? c s.id = some s :=
      (source?_eq (World.timetable?_eq hx) s.id).trans hsource
    have hfires : m.Fires client i name ↔ s.work.entry? = some (i, some name) :=
      fires_iff_of_begins hs hs' hfound
    by_cases hentry : s.work.entry? = some (i, some name)
    · obtain ⟨trigger, callback, hwork⟩ := SourceWork.of_entry? hentry
      exact .fires c x y s trigger callback hx hmem hidle hwork hw
        ((World.inherits_startWork hx hb i).oldTimers.trans hw.oldTimers) hstarting
        (hfires.mpr hentry)
    · exact leave hw (World.ages_startWork (m.world.setContext c y) c s.id s.work).next
        ((World.sameBurst_of_eq fun _ => rfl).trans (Nat.le_refl _)
          (World.sameBurst_startWork (m.world.setContext c y) c s.id hentry))
        (World.inherits_startWork hx hb i).oldTimers hstarting (mt hfires.mp hentry)
  | ends c id mayStay stays hstay hw hs hc =>
    refine leave hw (Nat.le_refl _) (World.sameBurst_of_eq fun _ => rfl)
      (Machine.inherits_sourceEnd (hreach.desk c) hs hstay i).oldTimers ?_ (popped hs)
    rw [starting_eq hs]
    rfl
  | closes c worked hw hs hc =>
    refine leave hw (Nat.le_refl _) (World.sameBurst_of_eq fun _ => rfl) (still fun _ => rfl) ?_
      (popped hs)
    rw [starting_eq hs]
    rfl

end

/-! ## Runs -/

/-- Timers of a method, and intervals that are to start, go by its trigger. -/
structure Timed (m : Machine σ β κ) (i : InstanceId) (name : String) : Prop where
  timers : ∀ c t, m.world.timetable? c = some t → ∀ s ∈ t.sources, ∀ trigger callback,
    s.work = .endOfBurst i name trigger callback → m.world.Triggers i name trigger
  intervals : ∀ d callback, .startInterval i name d callback ∈ m.starting i name →
    m.world.Triggers i name d.trigger

section
variable {client : Client σ β κ} {m : Machine σ β κ} {i : InstanceId} {name : String}

/-- The triggers of what is there stay right as instances age. -/
theorem Timed.older (h : m.Timed i name) {m' : Machine σ β κ} (ha : World.Ages m.world m'.world)
    (htimers : World.OldTimers i name m.world m'.world)
    (hstarting : ∀ d callback, .startInterval i name d callback ∈ m'.starting i name →
      .startInterval i name d callback ∈ m.starting i name ∨ m.world.Triggers i name d.trigger) :
    m'.Timed i name := by
  refine ⟨fun c t' ht' s' hs' trigger callback hwork => ?_, fun d callback hmem => ?_⟩
  · obtain ⟨t, ht, s, hs, hsame⟩ := htimers c t' ht' s' hs' (by rw [hwork]; rfl)
    exact (h.timers c t ht s hs trigger callback (hsame.trans hwork)).ages ha
  · rcases hstarting d callback hmem with hold | hnew
    · exact (h.intervals d callback hold).ages ha
    · exact hnew.ages ha

/-- An interval that starts adds a timer of its trigger. -/
theorem Timed.restarts (h : m.Timed i name) {m' : Machine σ β κ} {w : World β}
    (ha : World.Ages m.world m'.world) {d : Debounce} {callback : β}
    (hw : World.Steady (w.restartBurst i name d callback) m'.world)
    (hsame : ∀ c, w.timetable? c = m.world.timetable? c)
    (htrigger : m.world.Triggers i name d.trigger)
    (hstarting : ∀ f ∈ m'.starting i name, f ∈ m.starting i name) : m'.Timed i name := by
  refine ⟨fun c t' ht' s hs trigger callback' hwork => ?_, fun d' callback' hmem =>
    (h.intervals d' callback' (hstarting _ hmem)).ages ha⟩
  rw [hw.timetable] at ht'
  rcases World.mem_restartBurst ht' hs with ⟨t, ht, hmem⟩ | hnew
  · exact (h.timers c t ((hsame c).symm.trans ht) s hmem trigger callback' hwork).ages ha
  · cases hwork.symm.trans hnew
    exact htrigger.ages ha

/-- **In every reachable state, the timers of a method go by its trigger.** -/
theorem Reachable.timed (hreach : Reachable client m) (i : InstanceId) (name : String) :
    m.Timed i name := by
  induction hreach with
  | initial state program =>
    exact ⟨nofun, nofun⟩
  | @step m hreach ih =>
    have ha := (turn_step client m).ages
    have hcreated {x : Instance β} (hx : m.world.instance? i = some x) :
        i.number < m.world.nextInstance := hreach.tracked.created i _ (World.duties?_eq hx)
    cases tends_step hreach i name with
    | leaves hburst htimers hstarting hfires =>
      exact ih.older ha htimers fun _ _ hmem => .inl (hstarting ▸ hmem)
    | disposes hm hw hstarting hfires =>
      exact ih.older ha ((World.inherits_dispose _ i i).oldTimers.trans hw.oldTimers)
        fun _ _ hmem => .inl (hstarting ▸ hmem)
    | leads x callback d hx hmethod hburst htimers hstarting hfires =>
      refine ih.older ha htimers fun d' callback' hmem => ?_
      rw [hstarting] at hmem
      rcases List.mem_cons.mp hmem with heq | hold
      · cases heq
        exact .inr (.of_findMethod? (hcreated hx) hx hmethod)
      · exact .inl hold
    | delays args x callback d hx hmethod hw hstarting =>
      exact ih.restarts ha hw (fun _ => rfl) (.of_findMethod? (hcreated hx) hx hmethod)
        fun _ hmem => hstarting ▸ hmem
    | starts d callback hw hstarting =>
      exact ih.restarts ha hw (fun _ => rfl)
        (ih.intervals d callback (hstarting ▸ List.mem_cons_self))
        fun _ hmem => hstarting ▸ List.mem_cons_of_mem _ hmem
    | fires c x y s trigger callback hx hs hidle hwork hw htimers hstarting hfires =>
      exact ih.older ha htimers fun _ _ hmem => .inl (hstarting ▸ hmem)

/-- What a step does to the burst of a method of an instance that is there before and after. -/
inductive Alters (client : Client σ β κ) (m : Machine σ β κ) (i : InstanceId) (name : String)
    (e e' : Duties β) : Prop
  /-- Nothing, and the instance is not disposed. -/
  | keeps (hburst : e'.burst name = e.burst name) (hfires : ¬ m.Fires client i name)
      (hdispose : m.disposes i = true → e.disposed = true)
  /-- A call is made, and the interval starts anew. -/
  | records (id : SourceId) (args : List Value) (trigger : Trigger)
      (htrigger : e.ofClass.trigger? name = some trigger)
      (hburst : e'.burst name = { (e.burst name).record trigger args with pending := some id })
  /-- After a run at once, the interval starts. -/
  | starts (id : SourceId) (hburst : e'.burst name = { e.burst name with pending := some id })
  /-- The instance is disposed. -/
  | disposes (hm : m.disposes i = true) (halive : e.disposed = false)
      (hburst : e'.burst name = { e.burst name with pending := none })
  /-- The timer goes off. -/
  | fires (h : m.Fires client i name) (hdispose : m.disposes i = false) (trigger : Trigger)
      (htrigger : e.ofClass.trigger? name = some trigger)
      (hburst : e'.burst name = ((e.burst name).finish trigger).1)

/-- **A step changes a burst in no other way.** -/
theorem alters_step (hreach : Reachable client m) {e e' : Duties β}
    (he : m.world.duties? i = some e) (he' : (m.step client).world.duties? i = some e')
    (hcontext : m.world.timetable? e.context ≠ none) (name : String) :
    m.Alters client i name e e' := by
  obtain ⟨x, hx, rfl⟩ := Option.map_eq_some_iff.mp he
  have hlt : i.number < m.world.nextInstance := hreach.tracked.created i _ he
  have same (h : World.SameBurst i name m.world (m.step client).world) :
      e'.burst name = x.duties.burst name := by
    obtain ⟨e₀, he₀, hburst⟩ := h hlt e' he'
    obtain rfl := Option.some.inj (he.symm.trans he₀)
    exact hburst
  by_cases hm : m.disposes i = true
  · have hf := follows_perform client (of_disposes hm)
    have hw : World.Steady (m.world.dispose i) (m.step client).world := hf.world.toSteady
    cases hd : x.disposed with
    | true =>
      refine .keeps (same ?_) (not_fires (congrArg marks hf.stack)) fun _ => hd
      have hnone : m.world.dispose i = m.world :=
        World.dispose_of_disposed fun z hz => by
          cases hx.symm.trans hz
          exact hd
      rw [hnone] at hw
      exact hw.sameBurst
    | false =>
      refine .disposes hm hd ?_
      have hdisposed := hw.duties_of_some he'
      rw [World.duties?_dispose hx hd, if_pos rfl] at hdisposed
      obtain rfl := Option.some.inj hdisposed
      exact Duties.burst_dispose x name
  · obtain ⟨t, ht⟩ := Option.ne_none_iff_exists'.mp hcontext
    cases tends_step hreach i name with
    | leaves hburst htimers hstarting hfires =>
      exact .keeps (same hburst) hfires fun h => absurd h hm
    | disposes hdispose hw hstarting hfires =>
      refine absurd ?_ hm
      unfold Machine.disposes
      rw [hdispose]
      exact decide_eq_true rfl
    | leads y callback d hy hmethod hburst htimers hstarting hfires =>
      exact .keeps (same hburst) hfires fun h => absurd h hm
    | delays args y callback d hy hmethod hw hstarting =>
      obtain rfl := Option.some.inj (hx.symm.trans hy)
      have hz : (m.world.modifyInstance i
          (·.setBurst name ((x.burst name).record d.trigger args))).instance? i =
            some (x.setBurst name ((x.burst name).record d.trigger args)) := by
        rw [World.instance?_modifyInstance, if_pos rfl, hx]
        rfl
      obtain ⟨hduties, -⟩ := World.restartBurst_views hz (t := t) ht name d callback
      refine .records ⟨t.nextSource⟩ args d.trigger (Class.trigger?_eq hmethod) ?_
      rw [hduties e' (hw.duties_of_some he'), Duties.burst_setBurst, if_pos rfl]
      rfl
    | starts d callback hw hstarting =>
      obtain ⟨hduties, -⟩ := World.restartBurst_views hx (t := t) ht name d callback
      exact .starts ⟨t.nextSource⟩ (hduties e' (hw.duties_of_some he'))
    | fires c y z s trigger callback hy hs hidle hwork hw htimers hstarting hfires =>
      -- the timer is on record, as it has not started yet
      have hpending : (x.duties.burst name).pending = some s.id := by
        obtain ⟨-, hrecords⟩ := hreach.tracked.tracks c _ (World.timetable?_eq hy) s hs i
          (by rw [hwork]; rfl)
        obtain ⟨-, hrecord⟩ := hrecords hidle x.duties he
        rwa [hwork] at hrecord
      have hx' : (m.world.setContext c z).instance? i = some x := hx
      rw [hwork, (startWork_timer hx' hpending c s.id trigger callback).1] at hw
      have hfinished := hw.duties_of_some he'
      rw [World.duties?_modifyInstance, if_pos rfl, hx'] at hfinished
      obtain rfl := Option.some.inj hfinished
      refine .fires hfires (Bool.eq_false_iff.mpr hm) trigger ?_ ?_
      · exact ((hreach.timed i name).timers c _ (World.timetable?_eq hy) s hs trigger callback
          hwork).2 _ he
      · rw [Duties.burst_setBurst, if_pos rfl]

/-- A new instance is alive and has no bursts. -/
theorem fresh_of_new (hreach : Reachable client m) {e' : Duties β}
    (he : m.world.duties? i = none) (he' : (m.step client).world.duties? i = some e')
    (name : String) : e'.disposed = false ∧ e'.burst name = {} := by
  have hnew : m.world.nextInstance ≤ i.number :=
    ((turn_step client m).ages.ages i e' he').resolve_left fun ⟨e, hold, _⟩ => by
      rw [he] at hold
      cases hold
  have hgiven := (hreach.step).tracked.created i e' he'
  -- what gives no identity has no new instances
  have gives {w : World β} (hw : World.Steady w (m.step client).world)
      (hn : w.nextInstance = m.world.nextInstance) :
      e'.disposed = false ∧ e'.burst name = {} := by
    have := hw.nextInstance
    omega
  cases turn_step client m with
  | creates ofClass c hw hs hc =>
    have hadded := hw.duties_of_some he'
    rw [World.duties?_addInstance, he, Option.none_or] at hadded
    split at hadded
    · cases hadded
      exact ⟨rfl, rfl⟩
    · cases hadded
  | disposes j hm hw hs hc => exact gives hw (World.nextInstance_dispose _ j)
  | callsLater j other args x callback d hm hx hd hf hr hw hs hc =>
    exact gives hw (World.spares_restartBurst _ j other d callback).nextInstance
  | startsInterval j other d callback hw hs hc =>
    exact gives hw (World.spares_restartBurst _ j other d callback).nextInstance
  | schedules j x hx hw hs hc => exact gives hw (World.spares_scheduleHooks _ j x).nextInstance
  | begins c id ready worked rest x y work hx hb hw hs hs' hc =>
    exact gives hw (World.nextInstance_startWork (m.world.setContext c y) c id work)
  | still hw hs hc | opens config hw hs hc | ticks c now hm hw hs hc
  | attaches c x kind priority work hx hp hw hs hc | detaches c x id hm hx hw hs hc
  | calls j other args x callback hm hx hd hf hw hs hc
  | callsAtOnce j other args x callback d hm hx hd hf hr hw hs hc
  | constructs f rest j hf hw hs hs' hc | collects c x worked hx hw hs hc
  | skips c id ready worked rest hx hw hs hs' hc
  | ends c id mayStay stays hstay hw hs hc | closes c worked hw hs hc => exact gives hw rfl

theorem Alters.consistent {e e' : Duties β} (h : m.Alters client i name e e')
    (hclass : e'.ofClass = e.ofClass) (hc : e.Consistent name) : e'.Consistent name := by
  have same (hargs : (e'.burst name).lastArgs = (e.burst name).lastArgs)
      (htrailing : (e'.burst name).trailing = (e.burst name).trailing) : e'.Consistent name :=
    ⟨by rw [hargs, htrailing]; exact hc.recorded,
      by rw [htrailing, hclass]; exact hc.trailing⟩
  cases h with
  | keeps hburst hfires hdispose => exact same (by rw [hburst]) (by rw [hburst])
  | records id args trigger htrigger hburst =>
    rcases (e.burst name).record_eq trigger args with hrecord | ⟨htrails, hargs, htrailing⟩
    · exact same (by rw [hburst, hrecord]) (by rw [hburst, hrecord])
    · refine ⟨?_, fun _ => ⟨trigger, hclass ▸ htrigger, htrails⟩⟩
      rw [hburst, hargs, htrailing]
      rfl
  | starts id hburst => exact same (by rw [hburst]) (by rw [hburst])
  | disposes hm halive hburst => exact same (by rw [hburst]) (by rw [hburst])
  | fires h hdispose trigger htrigger hburst =>
    obtain ⟨hargs, htrailing⟩ := Burst.finish_keeps_nothing (hc.isTrailing htrigger)
    refine ⟨?_, ?_⟩
    · rw [hburst, hargs, htrailing]
      rfl
    · rw [hburst, htrailing]
      exact nofun

/-- With the next step, an instance is disposed although a call of the method waits. -/
def Strands (m : Machine σ β κ) (i : InstanceId) (name : String) : Prop :=
  m.disposes i = true ∧ ∃ e, m.world.duties? i = some e ∧ e.disposed = false ∧
    (e.burst name).trailing = true

/-- Within so many steps a call was stranded, and no timer of the method has gone off since. -/
def Stranded (client : Client σ β κ) (m : Machine σ β κ) (i : InstanceId) (name : String)
    (n : Nat) : Prop :=
  ∃ k < n, (m.after client k).Strands i name ∧
    ∀ j, k < j → j < n → ¬ (m.after client j).Fires client i name

theorem stranded_succ {n : Nat} : m.Stranded client i name (n + 1) ↔
    (m.after client n).Strands i name ∨
      m.Stranded client i name n ∧ ¬ (m.after client n).Fires client i name := by
  constructor
  · rintro ⟨k, hk, hstrands, hquiet⟩
    rcases Nat.lt_succ_iff_lt_or_eq.mp hk with hlt | rfl
    · exact .inr ⟨⟨k, hlt, hstrands, fun j hkj hj => hquiet j hkj (Nat.lt_succ_of_lt hj)⟩,
        hquiet n hlt (Nat.lt_succ_self n)⟩
    · exact .inl hstrands
  · rintro (hstrands | ⟨⟨k, hk, hstrands, hquiet⟩, hlast⟩)
    · exact ⟨n, Nat.lt_succ_self n, hstrands, fun j hnj hj => by omega⟩
    · refine ⟨k, Nat.lt_succ_of_lt hk, hstrands, fun j hkj hj => ?_⟩
      rcases Nat.lt_succ_iff_lt_or_eq.mp hj with hlt | rfl
      · exact hquiet j hkj hlt
      · exact hlast

/-- What strands a call has disposed the instance. -/
theorem Stranded.disposed (hreach : Reachable client m) {n : Nat}
    (h : m.Stranded client i name n) {e : Duties β}
    (he : (m.after client n).world.duties? i = some e) : e.disposed = true := by
  obtain ⟨k, hk, ⟨hdisposes, e₀, he₀, halive, -⟩, -⟩ := h
  obtain ⟨x, hx, rfl⟩ := Option.map_eq_some_iff.mp he₀
  obtain ⟨hgone, -⟩ := gone_of_disposes (hreach.after k) hdisposes hx halive
  have hages := ages_after client m (Nat.succ_le_of_lt hk)
  obtain ⟨e₁, he₁, haged⟩ := (hages.ages i e he).resolve_right (Nat.not_le_of_lt hgone.created)
  exact haged.disposed (hgone.disposed e₁ he₁)

/-- A burst stays consistent, and without a timer a call waits in it exactly if it was stranded. -/
theorem waits_iff_stranded (hreach : Reachable client m) (hnone : m.world.duties? i = none) {n : Nat}
    (hcontext : ∀ k, k < n → ∀ e, (m.after client k).world.duties? i = some e →
      (m.after client k).world.timetable? e.context ≠ none) {e : Duties β}
    (he : (m.after client n).world.duties? i = some e) (name : String) :
    e.Consistent name ∧ ((e.burst name).pending = none →
      ((e.burst name).trailing = true ↔ m.Stranded client i name n)) := by
  induction n generalizing e with
  | zero =>
    rw [show (m.after client 0) = m from rfl, hnone] at he
    cases he
  | succ n ih =>
    cases hn : (m.after client n).world.duties? i with
    | none =>
      obtain ⟨halive, hburst⟩ := fresh_of_new (hreach.after n) hn he name
      refine ⟨⟨by rw [hburst]; rfl, by rw [hburst]; exact nofun⟩, fun _ => iff_of_false ?_ ?_⟩
      · rw [hburst]
        exact Bool.false_ne_true
      · exact fun hstranded => Bool.false_ne_true (halive.symm.trans (hstranded.disposed hreach he))
    | some e₀ =>
      obtain ⟨hconsistent, hwaits⟩ := ih (fun k hk => hcontext k (Nat.lt_succ_of_lt hk)) hn
      have hages := (turn_step client (m.after client n)).ages
      have hclass : e.ofClass = e₀.ofClass := by
        obtain ⟨e₁, he₁, haged⟩ := (hages.ages i e he).resolve_right
          (Nat.not_le_of_lt ((hreach.after n).tracked.created i e₀ hn))
        obtain rfl := Option.some.inj (hn.symm.trans he₁)
        exact haged.ofClass
      have halters := alters_step (hreach.after n) hn he
        (hcontext n (Nat.lt_succ_self n) e₀ hn) name
      refine ⟨halters.consistent hclass hconsistent, fun hpending => ?_⟩
      rw [stranded_succ]
      have alive (halive : e₀.disposed = false) : ¬ m.Stranded client i name n := fun hstranded =>
        Bool.false_ne_true (halive.symm.trans (hstranded.disposed hreach hn))
      cases halters with
      | keeps hburst hfires hdispose =>
        rw [hburst] at hpending ⊢
        refine (hwaits hpending).trans ⟨fun h => .inr ⟨h, hfires⟩, ?_⟩
        rintro (⟨hdisposes, e₁, he₁, halive, -⟩ | ⟨hstranded, -⟩)
        · obtain rfl := Option.some.inj (hn.symm.trans he₁)
          exact absurd ((hdispose hdisposes).symm.trans halive) (Bool.false_ne_true).symm
        · exact hstranded
      | records id args trigger htrigger hburst =>
        rw [hburst] at hpending
        cases hpending
      | starts id hburst =>
        rw [hburst] at hpending
        cases hpending
      | disposes hm halive hburst =>
        rw [hburst]
        refine ⟨fun htrailing => .inl ⟨hm, e₀, hn, halive, htrailing⟩, ?_⟩
        rintro (⟨-, e₁, he₁, -, htrailing⟩ | ⟨hstranded, -⟩)
        · obtain rfl := Option.some.inj (hn.symm.trans he₁)
          exact htrailing
        · exact absurd hstranded (alive halive)
      | fires h hdispose trigger htrigger hburst =>
        rw [hburst, (Burst.finish_keeps_nothing (hconsistent.isTrailing htrigger)).2]
        refine iff_of_false Bool.false_ne_true ?_
        rintro (⟨hdisposes, -⟩ | ⟨-, hnot⟩)
        · exact Bool.false_ne_true (hdispose.symm.trans hdisposes)
        · exact hnot h

/-- Once a program has ended, nothing happens any more. -/
theorem Reachable.after_of_rest (hreach : Reachable client m) (hs : m.stack = [])
    (hm : m.control.delivers = true) (n : Nat) : m.after client n = m := by
  obtain ⟨reply, hm⟩ := Control.of_delivers hm
  have hadvance : m.advance client = m := by
    unfold advance
    rw [hm, hs]
  induction n with
  | zero => rfl
  | succ n ih => exact (congrArg (Machine.step client) ih).trans (step_of_tidy hadvance hreach.isTidy)

end

end Machine

/-! ## What is kept -/

/-- **Finished bursts keep nothing, unless a disposal stranded a call.** Take a run of any program, with
whatever triggers and callbacks, in which instances are in contexts that are there. In every state of
it, a method without a pending timer

* has no arguments recorded and no call that waits, exactly if no disposal has found a call of the
  method waiting, or a timer of the method has gone off since;
* so as long as the instance is alive, it has none, however the burst went. -/
theorem finished_bursts_keep_nothing (client : Client σ β κ) (state : σ) (program : β)
    (i : InstanceId) (name : String) (n : Nat)
    (hcontext : ∀ k, k < n → ∀ x : Instance β,
      ((Machine.initial state program).after client k).world.instance? i = some x →
        ((Machine.initial state program).after client k).world.context? x.context ≠ none)
    (x : Instance β)
    (hx : ((Machine.initial state program).after client n).world.instance? i = some x)
    (hpending : (x.burst name).pending = none) :
    (((x.burst name).lastArgs = none ∧ (x.burst name).trailing = false) ↔
      ¬ (Machine.initial state program).Stranded client i name n) ∧
    (x.disposed = false → (x.burst name).lastArgs = none ∧ (x.burst name).trailing = false) := by
  have hreach : Reachable client (Machine.initial (κ := κ) state program) := .initial state program
  obtain ⟨hconsistent, hwaits⟩ := Machine.waits_iff_stranded hreach rfl
    (fun k hk e he => by
      obtain ⟨y, hy, rfl⟩ := Option.map_eq_some_iff.mp he
      exact fun hnone => hcontext k hk y hy (World.timetable?_eq_none.mp hnone))
    (World.duties?_eq hx) name
  have hkeeps : ((x.burst name).lastArgs = none ∧ (x.burst name).trailing = false) ↔
      ¬ (Machine.initial state program).Stranded client i name n := by
    rw [← hwaits hpending, Bool.not_eq_true]
    refine ⟨fun h => h.2, fun htrailing => ⟨?_, htrailing⟩⟩
    exact Option.isNone_iff_eq_none.mp
      (Option.isSome_eq_false_iff.mp (hconsistent.recorded.trans htrailing))
  exact ⟨hkeeps, fun halive => hkeeps.mpr fun hstranded =>
    Bool.false_ne_true (halive.symm.trans (hstranded.disposed hreach (World.duties?_eq hx)))⟩

/-- A program that passes an instance to a debounced method of its own, lets the interval pass, does it
again, disposes the instance and lets go of it. -/
def poker : Client Unit Nat (Routine Nat) :=
  { Client.ofRoutines
      (fun
        | 0 => { acts := [.command (.newContext { clock := .manual }),
            .command (.construct
              { ofClass := .simple (NameTable.empty.insert "ping" ⟨1, some { interval := 10 }⟩) [] none
                context := ⟨0⟩ }),
            .command (.call ⟨1⟩ "ping" [.object (some ⟨1⟩)]), .command (.advance ⟨0⟩ 20),
            .command (.call ⟨1⟩ "ping" [.object (some ⟨1⟩)]), .command (.dispose ⟨1⟩)] }
        | _ => {}) [] with
    holds := fun rest => if rest.acts = [] then [] else [.object ⟨1⟩] }

/-- A state of the run of `poker`. -/
def pokerAfter (n : Nat) : Machine Unit Nat (Routine Nat) :=
  (Machine.initial () 0).after poker n

/-- What the burst of an instance keeps: whether it is disposed, whether a timer is pending, what is
recorded and whether a call waits. -/
def Machine.kept (m : Machine σ β κ) (i : InstanceId) (name : String) :
    Option (Bool × Option SourceId × Option (List Value) × Bool) :=
  (m.world.instance? i).map fun x =>
    (x.disposed, (x.burst name).pending, (x.burst name).lastArgs, (x.burst name).trailing)

theorem Machine.of_kept {m : Machine σ β κ} {i : InstanceId} {name : String} {disposed : Bool}
    {pending : Option SourceId} {lastArgs : Option (List Value)} {trailing : Bool}
    (h : m.kept i name = some (disposed, pending, lastArgs, trailing)) :
    ∃ x, m.world.instance? i = some x ∧ x.disposed = disposed ∧ (x.burst name).pending = pending ∧
      (x.burst name).lastArgs = lastArgs ∧ (x.burst name).trailing = trailing := by
  obtain ⟨x, hx, hall⟩ := Option.map_eq_some_iff.mp h
  simp only [Prod.mk.injEq] at hall
  exact ⟨x, hx, hall⟩

theorem poker_contexts {k : Nat} (hk : k < 30) (x : Instance Nat)
    (hx : (pokerAfter k).world.instance? ⟨1⟩ = some x) :
    (pokerAfter k).world.context? x.context ≠ none := by
  have hall : (Machine.initial (κ := Routine Nat) () 0).throughout poker (fun m =>
      (m.world.instance? ⟨1⟩).all fun x => (m.world.context? x.context).isSome) 30 = true := by
    decide +kernel
  have hat := Machine.throughout_iff.mp hall k hk
  rw [show ((Machine.initial () 0).after poker k).world.instance? ⟨1⟩ = some x from hx] at hat
  exact Option.isSome_iff_ne_none.mp hat

set_option maxRecDepth 100000 in
/-- When the timer of `poker` has gone off, nothing is kept; in the end, its disposal has stranded the
second call. -/
theorem finished_bursts_keep_nothing_poker :
    (∃ x, (pokerAfter 24).world.instance? ⟨1⟩ = some x ∧ (x.burst "ping").pending = none ∧
      (x.burst "ping").lastArgs = none ∧ (x.burst "ping").trailing = false) ∧
    (∃ x, (pokerAfter 30).world.instance? ⟨1⟩ = some x ∧ (x.burst "ping").pending = none ∧
      (x.burst "ping").lastArgs = some [.object (some ⟨1⟩)]) ∧
    (Machine.initial () 0).Stranded poker ⟨1⟩ "ping" 30 := by
  obtain ⟨x, hx, halive, hpending, -⟩ := Machine.of_kept
    (show (pokerAfter 24).kept ⟨1⟩ "ping" = some (false, none, none, false) by decide +kernel)
  obtain ⟨y, hy, -, hpending', hargs, -⟩ := Machine.of_kept
    (show (pokerAfter 30).kept ⟨1⟩ "ping" = some (true, none, some [.object (some ⟨1⟩)], true) by
      decide +kernel)
  have hkept := finished_bursts_keep_nothing poker () 0 ⟨1⟩ "ping" 24
    (fun k hk => poker_contexts (by omega)) x hx hpending
  have hstranded := finished_bursts_keep_nothing poker () 0 ⟨1⟩ "ping" 30
    (fun k hk => poker_contexts hk) y hy hpending'
  refine ⟨⟨x, hx, hpending, hkept.2 halive⟩, ⟨y, hy, hpending', hargs⟩, by_contra fun hnot => ?_⟩
  rw [hargs] at hstranded
  exact Option.some_ne_none _ (hstranded.1.mpr hnot).1

set_option maxRecDepth 100000 in
/-- The run of `poker` is over and nothing else holds the instance, but no timer is pending and its
burst still keeps it, whatever happens from then on. -/
theorem disposal_keeps_arguments :
    (pokerAfter 30).stack = [] ∧ (pokerAfter 30).rootHandles poker = [] ∧
      ∀ n, 30 ≤ n → ∃ x, (pokerAfter n).world.instance? ⟨1⟩ = some x ∧ x.disposed = true ∧
        (x.burst "ping").pending = none ∧ (x.burst "ping").lastArgs = some [.object (some ⟨1⟩)] ∧
        (x.burst "ping").trailing = true := by
  have hreach : Reachable poker (pokerAfter 30) := (Reachable.initial () 0).after 30
  have hstack : (pokerAfter 30).stack = [] := List.eq_nil_of_length_eq_zero (by decide +kernel)
  refine ⟨hstack, by decide +kernel, fun n hn => Machine.of_kept ?_⟩
  obtain ⟨n, rfl⟩ := Nat.exists_eq_add_of_le hn
  rw [show pokerAfter (30 + n) = (pokerAfter 30).after poker n from Machine.after_add poker _ 30 n,
    hreach.after_of_rest hstack (by decide +kernel)]
  decide +kernel

end ObjectSystem
