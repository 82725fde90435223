import ObjectSystem.Proofs.Ages

/-!
# Teardown

Disposal removes every source that waits to do work for an instance, so nothing that was deferred
before starts afterwards. Two operations that are in progress during the disposal can defer work
later: a construction whose last init hook has run attaches the ready hooks, and a debounced method
that has run at once starts its interval. `Machine.SchedulesFor` says when a step does so. As long as
none does, an instance that was disposed is at rest (`nothing_after_disposal`); a step that does
leaves a source waiting for a disposed instance.
-/

namespace ObjectSystem

variable {σ β κ : Type}

open Machine (marks Reachable)

/-! ## Work after disposal -/

/-- Whether the construction of an instance, or the interval of one of its methods, is in progress. -/
def Frame.isUnfinishedFor (i : InstanceId) : Frame β → Bool
  | .constructing j _ | .initializing j _ | .startInterval j _ _ _ => j = i
  | _ => false

namespace Machine

/-- Whether a ready hook or a method of an instance is about to start. -/
def startsFor (m : Machine σ β κ) (i : InstanceId) : Bool :=
  match m.control with
  | .invoke _ inv => inv.role.isDeferred && inv.self == some i
  | _ => false

/-- Whether an instance is about to be disposed. -/
def disposes (m : Machine σ β κ) (i : InstanceId) : Bool :=
  match m.control with
  | .perform (.dispose j) => j = i
  | _ => false

/-- A source is attached that does work for an instance. -/
def HasSourceOf (m : Machine σ β κ) (i : InstanceId) : Prop :=
  ∃ c id s, m.source? c id = some s ∧ s.work.owner? = some i

/-- The next step attaches deferred work for an instance that is there: its construction is finished
and has ready hooks to attach, or a method of it has run at once. -/
def SchedulesFor (m : Machine σ β κ) (i : InstanceId) : Prop :=
  ∃ x reply, m.world.instance? i = some x ∧ m.world.context? x.context ≠ none ∧
    m.control = .deliver reply ∧
      ((∃ name debounce callback stack,
          m.stack = .operation (.startInterval i name debounce callback) :: stack) ∨
        (∃ level ∈ x.ofClass.rootFirst, level.ready ≠ none) ∧
          ∃ stack, m.stack = .operation (.initializing i []) :: stack)

/-- The mark that a step takes off the stack is the innermost layer, and is told a reply. -/
theorem top_of_marks (client : Client σ β κ) {m : Machine σ β κ} {f : Frame β}
    (hs : marks m.stack = f :: marks (m.step client).stack) :
    ∃ reply stack, m.control = .deliver reply ∧ m.stack = .operation f :: stack := by
  have longer (above : List (Layer β κ)) {stack : List (Layer β κ)}
      (hmarks : marks m.stack = marks stack) (hstack : (m.step client).stack = above ++ stack) :
      False := by
    rw [hstack, marks_append, hmarks] at hs
    have := congrArg List.length hs
    rw [List.length_cons, List.length_append] at this
    omega
  cases moved_step client m with
  | performs command hm h => exact (longer _ rfl h.stack).elim
  | enters rest inv reply hm hw hs' hc => exact (longer [_] rfl hs').elim
  | rests reply hw hs' hm hc => exact (longer [] rfl hs').elim
  | asks command k k' inv stack hw hs' hs'' hc =>
      exact (longer [_] (by rw [hs']; rfl) hs'').elim
  | goesOn reply k k' inv stack hw hs' hs'' hc =>
      exact (longer [_] (by rw [hs']; rfl) hs'').elim
  | leaves reply k inv stack hw hs' hs'' hc hr =>
      exact (longer [] (by rw [hs']; rfl) hs'').elim
  | resumes frame reply stack hm hs' h =>
      refine ⟨reply, stack, hm, ?_⟩
      have hmarks := hs
      rw [hs', marks_operation] at hmarks
      split at hmarks
      · rw [hs', (List.cons.inj hmarks).1]
      · exact (longer _ (by rw [hs', marks_operation, if_neg ‹_›]) h.stack).elim

end Machine

/-! ## Sources that come to wait -/

namespace World

variable {w : World β} {i : InstanceId} {x : Instance β} {y : MainContext β}

theorem not_retired_attachNow {c : ContextId} (hy : w.context? c = some y) (kind : SourceKind)
    (priority : Priority) {work : SourceWork β} (howner : work.owner? = some i) :
    ¬ (w.setContext c (y.attachNow kind priority work).1).Retired i := by
  intro hretired
  have ht := timetable?_setContext w hy (y := (y.attachNow kind priority work).1) (d := c)
  rw [if_pos rfl] at ht
  have hmem : y.timetable.fresh kind priority work ∈
      (y.attachNow kind priority work).1.timetable.sources :=
    List.mem_append_right _ (List.mem_singleton.mpr rfl)
  cases hretired c _ ht _ hmem howner

theorem not_retired_restartBurst (hx : w.instance? i = some x)
    (hcontext : w.context? x.context ≠ none) (name : String) (debounce : Debounce) (callback : β) :
    ¬ (w.restartBurst i name debounce callback).Retired i := by
  obtain ⟨z, hz⟩ := Option.ne_none_iff_exists'.mp hcontext
  rw [restartBurst_eq hx hz]
  exact not_retired_attachNow (context?_detachSources hz _) (.timeout debounce.interval) .standard
    rfl

theorem not_retired_scheduleReady (hx : w.instance? i = some x)
    (hcontext : w.context? x.context ≠ none) (typeName : String) (hook : ReadyHook β) :
    ¬ (w.scheduleReady i typeName hook).Retired i := by
  obtain ⟨y, hy⟩ := Option.ne_none_iff_exists'.mp hcontext
  rw [scheduleReady_eq hx hy]
  exact not_retired_attachNow hy .idle .standard rfl

/-- A source that waits still waits after another ready hook was attached. -/
theorem not_retired_scheduleReady_of_not_retired (h : ¬ w.Retired i) (typeName : String)
    (hook : ReadyHook β) : ¬ (w.scheduleReady i typeName hook).Retired i := by
  refine scheduleReady_induction w i typeName hook h fun x y _ hy => ?_
  exact not_retired_attachNow hy .idle .standard rfl

theorem not_retired_scheduleHooks (hx : w.instance? i = some x)
    (hcontext : w.context? x.context ≠ none) (hready : ∃ level ∈ x.ofClass.rootFirst, level.ready ≠ none) :
    ¬ (w.scheduleHooks i x).Retired i := by
  unfold scheduleHooks
  revert hready
  generalize x.ofClass.rootFirst = levels
  intro hready
  induction levels with
  | nil =>
      obtain ⟨level, hmem, -⟩ := hready
      cases hmem
  | cons level rest ih =>
      rw [List.foldl_cons]
      cases hlevel : level.ready with
      | some hook =>
          refine List.foldlRecOn (motive := (¬ Retired · i)) rest _ ?_ fun v hv other _ => ?_
          · exact not_retired_scheduleReady hx hcontext level.typeName hook
          · split
            · exact not_retired_scheduleReady_of_not_retired hv _ _
            · exact hv
      | none =>
          refine ih ?_
          obtain ⟨other, hmem, hother⟩ := hready
          rcases List.mem_cons.mp hmem with rfl | hmem
          · exact absurd hlevel hother
          · exact ⟨other, hmem, hother⟩

/-- An instance was disposed, and no source waits to do work for it. -/
structure Gone (w : World β) (i : InstanceId) : Prop where
  created : i.number < w.nextInstance
  disposed : ∀ d, w.duties? i = some d → d.disposed = true
  retired : w.Retired i

theorem Gone.ages {v : World β} (h : w.Gone i) (ha : Ages w v) (hretired : v.Retired i) :
    v.Gone i := by
  refine ⟨Nat.lt_of_lt_of_le h.created ha.next, fun d' hd' => ?_, hretired⟩
  rcases ha.ages i d' hd' with ⟨d, hd, hages⟩ | hge
  · exact hages.disposed (h.disposed d hd)
  · exact absurd h.created (Nat.not_lt.mpr hge)

/-- An instance that is gone is not called. -/
theorem Gone.not_called (h : w.Gone i) {j : InstanceId} (hx : w.instance? j = some x)
    (hd : x.disposed = false) : i ≠ j := by
  rintro rfl
  have := h.disposed _ (duties?_eq hx)
  rw [show x.duties.disposed = false from hd] at this
  cases this

end World

/-! ## What a step does to an instance that is gone -/

section
variable {m : Machine σ β κ} {i : InstanceId}

/-- The work of a source is done for the instance that owns it. -/
theorem owner?_of_startWork {w : World β} {c : ContextId} {id : SourceId} {work : SourceWork β}
    {callback : β} {inv : Invocation}
    (hc : (w.startWork c id work []).control = .invoke callback inv) (hself : inv.self = some i) :
    work.owner? = some i := by
  refine World.startWork_cases (P := fun work p => p.control = .invoke callback inv →
    work.owner? = some i) w c id work [] ?_ ?_ ?_ ?_ ?_ ?_ ?_ ?_ hc
  · exact fun f hc => by cases hc; cases hself
  · exact fun f hc => by cases hc; cases hself
  · exact fun _ _ _ _ => nofun
  · exact fun j typeName f _ hc => by cases hc; exact hself
  · exact fun j typeName f _ hc => by cases hc; exact hself
  · exact fun _ _ _ _ _ => nofun
  · exact fun _ _ _ _ _ _ _ _ _ => nofun
  · exact fun j name trigger f x burst args _ _ _ hc => by cases hc; exact hself

/-- Nothing starts for an instance that is gone. -/
theorem World.Gone.not_starts (client : Client σ β κ) (h : m.world.Gone i) :
    (m.step client).startsFor i = false := by
  rw [Bool.eq_false_iff]
  intro hstarts
  unfold Machine.startsFor at hstarts
  split at hstarts
  · next callback inv hc =>
      rw [Bool.and_eq_true, beq_iff_eq] at hstarts
      obtain ⟨hrole, hself⟩ := hstarts
      have hplain : (m.step client).control.isPlain = false := by
        rw [hc, Control.isPlain, hrole]
        rfl
      cases turn_step client m with
      | calls j name args x f hm hx hd hf hw hs hc' =>
          cases hc'.symm.trans hc
          exact h.not_called hx hd (Option.some.inj hself).symm
      | callsAtOnce j name args x f debounce hm hx hd hf hr hw hs hc' =>
          cases hc'.symm.trans hc
          exact h.not_called hx hd (Option.some.inj hself).symm
      | begins c id ready worked rest x y work hx hb hw hs hs' hc' =>
          obtain ⟨s, hsource, hidle, rfl, -⟩ := MainContext.of_beginRun hb
          have howner := owner?_of_startWork (hc'.symm.trans hc) hself
          have hrun := h.retired c _ (World.timetable?_eq hx) s
            (Timetable.mem_of_source? hsource).1 howner
          rw [hidle] at hrun
          cases hrun
      | _ =>
          rename_i hplain'
          cases hplain'.symm.trans hplain
  · cases hstarts

/-- A step that defers no work for an instance that is gone leaves it so. -/
theorem World.Gone.step (client : Client σ β κ) (hsound : ∀ c, (m.desk c).Sound)
    (h : m.world.Gone i) (hnot : ¬ m.SchedulesFor i) : (m.step client).world.Gone i := by
  have hturn := turn_step client m
  refine h.ages hturn.ages ?_
  have follow {w : World β} (hs : World.Inherits i m.world w)
      (hw : World.Steady w (m.step client).world) : (m.step client).world.Retired i :=
    (h.retired.inherits hs).steady hw
  cases hturn with
  | still hw hs hc => exact h.retired.steady hw
  | opens config hw hs hc => exact follow (World.inherits_addContext config) hw
  | ticks c now hm hw hs hc => exact follow (World.inherits_setTime c now) hw
  | attaches c x kind priority work hx hp hw hs hc =>
      refine follow (World.inherits_attachNow hx kind priority ?_) hw
      rw [SourceWork.owner?_of_isPlain hp]
      exact (Option.some_ne_none i).symm
  | detaches c x id hm hx hw hs hc => exact follow (World.inherits_detach hx id) hw
  | creates ofClass c hw hs hc =>
      refine follow ?_ hw
      exact World.inherits_of_eq fun _ => rfl
  | disposes j hm hw hs hc => exact follow (World.inherits_dispose _ j i) hw
  | calls j name args x callback hm hx hd hf hw hs hc => exact h.retired.steady hw
  | callsAtOnce j name args x callback debounce hm hx hd hf hr hw hs hc =>
      refine follow ?_ hw
      exact World.inherits_of_eq fun _ => rfl
  | callsLater j name args x callback debounce hm hx hd hf hr hw hs hc =>
      refine follow (World.Inherits.trans (World.inherits_of_eq fun _ => rfl) ?_) hw
      exact World.inherits_restartBurst (.inl (h.not_called hx hd)) name debounce callback
  | startsInterval j name debounce callback hw hs hc =>
      refine follow (World.inherits_restartBurst ?_ name debounce callback) hw
      by_cases hj : i = j
      · subst hj
        refine .inr fun x hx => ?_
        by_contra hcontext
        obtain ⟨reply, stack, hm, hstack⟩ := Machine.top_of_marks client hs
        exact hnot ⟨x, reply, hx, hcontext, hm, .inl ⟨name, debounce, callback, stack, hstack⟩⟩
      · exact .inl hj
  | constructs f rest j hf hw hs hs' hc => exact h.retired.steady hw
  | schedules j x hx hw hs hc =>
      by_cases hj : i = j
      · subst hj
        obtain ⟨reply, stack, hm, hstack⟩ := Machine.top_of_marks client hs
        by_cases hcontext : m.world.context? x.context = none
        · refine follow ?_ hw
          rw [World.scheduleHooks_of_absent fun z hz => ?_]
          · exact World.inherits_of_eq fun _ => rfl
          · obtain rfl := Option.some.inj (hx.symm.trans hz)
            exact hcontext
        · by_cases hready : ∃ level ∈ x.ofClass.rootFirst, level.ready ≠ none
          · exact absurd ⟨x, reply, hx, hcontext, hm, .inr ⟨hready, stack, hstack⟩⟩ hnot
          · refine follow ?_ hw
            rw [World.scheduleHooks_of_none fun level hmem => ?_]
            · exact World.inherits_of_eq fun _ => rfl
            · by_contra hlevel
              exact hready ⟨level, hmem, hlevel⟩
      · exact follow (World.inherits_scheduleHooks hj _ x) hw
  | collects c x worked hx hw hs hc => exact follow (World.inherits_collectReady hx) hw
  | skips c id ready worked rest hx hw hs hs' hc => exact h.retired.steady hw
  | begins c id ready worked rest x y work hx hb hw hs hs' hc =>
      exact follow (World.inherits_startWork hx hb i) hw
  | ends c id mayStay stays hstay hw hs hc =>
      exact follow (Machine.inherits_sourceEnd (hsound c) hs hstay i) hw
  | closes c worked hw hs hc => exact h.retired.steady hw

/-- A step that defers work for an instance leaves a source waiting. -/
theorem Machine.SchedulesFor.not_retired (client : Client σ β κ) (h : m.SchedulesFor i) :
    ¬ (m.step client).world.Retired i := by
  obtain ⟨x, reply, hx, hcontext, hm, hstack⟩ := h
  intro hretired
  have back {w : World β} (hw : World.Steady w (m.step client).world) : w.Retired i :=
    fun c t ht => hretired c t ((hw.timetable c).trans ht)
  rcases hstack with ⟨name, debounce, callback, stack, hstack⟩ | ⟨hready, stack, hstack⟩
  · have hf := Machine.follows_resume client hm hstack
    exact World.not_retired_restartBurst hx hcontext name debounce callback
      (back hf.world.toSteady)
  · have hf := Machine.follows_resume client hm hstack
    have hresume : Frame.resume m.world (.initializing i []) reply =
        .reply (m.world.scheduleHooks i x) (.object i) := by
      show World.continueInitializing m.world i [] = _
      unfold World.continueInitializing
      rw [hx]
    rw [hresume] at hf
    exact World.not_retired_scheduleHooks hx hcontext hready (back hf.world.toSteady)

end

/-! ## Operations in progress -/

section
variable {m : Machine σ β κ} {i : InstanceId}

theorem Machine.mem_marks {f : Frame β} {stack : List (Layer β κ)} (h : f ∈ marks stack) :
    .operation f ∈ stack := by
  induction stack with
  | nil => cases h
  | cons layer stack ih =>
      cases layer with
      | callback rest inv => exact List.mem_cons_of_mem _ (ih h)
      | operation g =>
          rw [Machine.marks_operation] at h
          split at h
          · rcases List.mem_cons.mp h with rfl | h
            · exact List.mem_cons_self
            · exact List.mem_cons_of_mem _ (ih h)
          · exact List.mem_cons_of_mem _ (ih h)

/-- Only an unfinished operation schedules. -/
theorem Machine.SchedulesFor.unfinished (h : m.SchedulesFor i) :
    ∃ f ∈ marks m.stack, f.isUnfinishedFor i = true := by
  obtain ⟨x, reply, -, -, -, ⟨name, debounce, callback, stack, hs⟩ | ⟨-, stack, hs⟩⟩ := h
  · refine ⟨.startInterval i name debounce callback, ?_, by simp [Frame.isUnfinishedFor]⟩
    rw [hs]
    exact List.mem_cons_self
  · refine ⟨.initializing i [], ?_, by simp [Frame.isUnfinishedFor]⟩
    rw [hs]
    exact List.mem_cons_self

theorem Frame.IsConstruction.isUnfinishedFor {f : Frame β} {j : InstanceId}
    (h : f.IsConstruction j) : f.isUnfinishedFor i = decide (j = i) := by
  cases f <;> first | exact h ▸ rfl | cases h

/-- No operation begins that is to defer work for an instance that is gone. -/
theorem World.Gone.unfinished (client : Client σ β κ) (h : m.world.Gone i)
    (hnone : ∀ f ∈ marks m.stack, f.isUnfinishedFor i = false) :
    ∀ f ∈ marks (m.step client).stack, f.isUnfinishedFor i = false := by
  have same (hs : marks (m.step client).stack = marks m.stack) :
      ∀ f ∈ marks (m.step client).stack, f.isUnfinishedFor i = false := by
    rw [hs]
    exact hnone
  have push {g : Frame β} {rest : List (Frame β)}
      (hs : marks (m.step client).stack = g :: rest) (hg : g.isUnfinishedFor i = false)
      (hrest : ∀ f ∈ rest, f.isUnfinishedFor i = false) :
      ∀ f ∈ marks (m.step client).stack, f.isUnfinishedFor i = false := by
    rw [hs]
    exact fun f hf => (List.mem_cons.mp hf).elim (fun heq => heq ▸ hg) (hrest f)
  have below {g : Frame β} {rest : List (Frame β)} (hs : marks m.stack = g :: rest) :
      ∀ f ∈ rest, f.isUnfinishedFor i = false :=
    fun f hf => hnone f (hs ▸ List.mem_cons_of_mem _ hf)
  cases turn_step client m with
  | still hw hs hc => exact same hs
  | opens config hw hs hc => exact same hs
  | ticks c now hm hw hs hc => exact same hs
  | attaches c x kind priority work hx hp hw hs hc => exact same hs
  | detaches c x id hm hx hw hs hc => exact same hs
  | creates ofClass c hw hs hc =>
      rcases hs with hs | ⟨g, hg, hs⟩
      · exact same hs
      · refine push hs ?_ hnone
        have hne : (⟨m.world.nextInstance⟩ : InstanceId) ≠ i := by
          rintro rfl
          exact absurd h.created (Nat.lt_irrefl _)
        rw [hg.isUnfinishedFor, decide_eq_false hne]
  | disposes j hm hw hs hc => exact same hs
  | calls j name args x callback hm hx hd hf hw hs hc => exact same hs
  | callsAtOnce j name args x callback debounce hm hx hd hf hr hw hs hc =>
      refine push hs ?_ hnone
      exact decide_eq_false fun heq => h.not_called hx hd heq.symm
  | callsLater j name args x callback debounce hm hx hd hf hr hw hs hc => exact same hs
  | startsInterval j name debounce callback hw hs hc => exact below hs
  | constructs f rest j hf hw hs hs' hc =>
      rcases hs' with hs' | ⟨g, hg, hs'⟩
      · rw [hs']
        exact below hs
      · refine push hs' ?_ (below hs)
        rw [hg.isUnfinishedFor, ← hf.isUnfinishedFor]
        exact hnone f (hs ▸ List.mem_cons_self)
  | schedules j x hx hw hs hc => exact below hs
  | collects c x worked hx hw hs hc => exact push hs rfl hnone
  | skips c id ready worked rest hx hw hs hs' hc => exact push hs' rfl (below hs)
  | begins c id ready worked rest x y work hx hb hw hs hs' hc =>
      rw [hs']
      intro f hf
      rcases List.mem_cons.mp hf with rfl | hf
      · rfl
      · rcases List.mem_cons.mp hf with rfl | hf
        · rfl
        · exact below hs f hf
  | ends c id mayStay stays hstay hw hs hc => exact below hs
  | closes c worked hw hs hc => exact below hs

end

/-! ## After disposal -/

section
variable {client : Client σ β κ} {m : Machine σ β κ} {i : InstanceId} {x : Instance β}

theorem Machine.of_disposes (hm : m.disposes i = true) : m.control = .perform (.dispose i) := by
  unfold Machine.disposes at hm
  split at hm
  · next j hc =>
      rw [hc, of_decide_eq_true hm]
  · cases hm

/-- With its disposal, an instance is gone. -/
theorem gone_of_disposes (hreach : Reachable client m) (hm : m.disposes i = true)
    (hx : m.world.instance? i = some x) (hd : x.disposed = false) :
    (m.step client).world.Gone i ∧ (m.step client).startsFor i = false ∧
      (m.step client).stack = m.stack := by
  have hf : (m.step client).Follows (.reply (m.world.dispose i) .done) m.stack :=
    Machine.follows_perform client (Machine.of_disposes hm)
  have htracked := hreach.tracked
  have hretired : (m.world.dispose i).Retired i := htracked.retired_dispose hx hd
  have hcontrol : (m.step client).control = .deliver .done := hf.control
  refine ⟨⟨?_, fun d hd' => ?_, hretired.steady hf.world.toSteady⟩, ?_, hf.stack⟩
  · have hnext := (World.ages_dispose m.world i).next
    have hsame : (m.step client).world.nextInstance = (m.world.dispose i).nextInstance :=
      hf.world.nextInstance
    exact hsame ▸ Nat.lt_of_lt_of_le (htracked.created i _ (World.duties?_eq hx)) hnext
  · have hdispose : (m.world.dispose i).duties? i = some d :=
      hf.world.toSteady.duties_of_some hd'
    rw [World.duties?_dispose hx hd, if_pos rfl] at hdispose
    obtain rfl := Option.some.inj hdispose
    rfl
  · unfold Machine.startsFor
    rw [hcontrol]

/-- As long as no step defers work for it, an instance that was disposed stays gone. -/
theorem gone_after (hreach : Reachable client m) (hm : m.disposes i = true)
    (hx : m.world.instance? i = some x) (hd : x.disposed = false) {n : Nat} (hn : 0 < n)
    (hnot : ∀ k, 0 < k → k < n → ¬ (m.after client k).SchedulesFor i) :
    (m.after client n).world.Gone i ∧ (m.after client n).startsFor i = false := by
  induction n with
  | zero => cases hn
  | succ n ih =>
      rcases Nat.eq_zero_or_pos n with rfl | hpos
      · obtain ⟨hgone, hstarts, -⟩ := gone_of_disposes hreach hm hx hd
        exact ⟨hgone, hstarts⟩
      · obtain ⟨hgone, -⟩ := ih hpos fun k hk hkn => hnot k hk (Nat.lt_succ_of_lt hkn)
        exact ⟨hgone.step client (hreach.after n).desk (hnot n hpos (Nat.lt_succ_self n)),
          hgone.not_starts client⟩

/-- With no operation in progress, an instance that is gone has no source at all. -/
theorem World.Gone.no_source (hreach : Reachable client m) (h : m.world.Gone i)
    (hone : m.stack.length ≤ 1) : ¬ m.HasSourceOf i := by
  rintro ⟨c, id, s, hsource, howner⟩
  obtain ⟨t, ht, hfound⟩ := Machine.timetable_of_source? hsource
  have hs : s ∈ t.sources := (Timetable.mem_of_source? hfound).1
  have hmarks : marks m.stack = [] := by
    rcases Nat.le_one_iff_eq_zero_or_eq_one.mp hone with hzero | hone
    · rw [List.length_eq_zero_iff.mp hzero]
      rfl
    · obtain ⟨rest, inv, hstack⟩ := hreach.outside hone
      rw [hstack]
      rfl
  have hrunning : (m.desk c).running = [] := by
    show (marks m.stack).flatMap (·.running c) = []
    rw [hmarks]
    rfl
  have hin := (((hreach.desk c).present t ht).runs s hs).mp (h.retired c t ht s hs howner)
  rw [hrunning] at hin
  cases hin

end

/-- After its disposal no source waits to do work for an instance, exactly until a step defers work
for it; so long nothing starts for it, and no source of it is left between the operations of the
program. Without an operation in progress that is to defer work for it, no step ever does. -/
theorem nothing_after_disposal (client : Client σ β κ) {m : Machine σ β κ}
    (hreach : Reachable client m) {i : InstanceId} {x : Instance β} (hm : m.disposes i = true)
    (hx : m.world.instance? i = some x) (hd : x.disposed = false) :
    (∀ n, (∀ k, 0 < k → k ≤ n → (m.after client k).world.Retired i) ↔
      ∀ k, 0 < k → k < n → ¬ (m.after client k).SchedulesFor i) ∧
    (∀ n, 0 < n → (∀ k, 0 < k → k < n → ¬ (m.after client k).SchedulesFor i) →
      (m.after client n).startsFor i = false ∧
        ((m.after client n).stack.length ≤ 1 → ¬ (m.after client n).HasSourceOf i)) ∧
    ((∀ f, .operation f ∈ m.stack → f.isUnfinishedFor i = false) →
      ∀ k, ¬ (m.after client k).SchedulesFor i) := by
  refine ⟨fun n => ⟨fun hretired k hk hkn hschedules => ?_, fun hnot k hk hkn => ?_⟩,
    fun n hn hnot => ?_, fun hstack k => ?_⟩
  · exact hschedules.not_retired client (hretired (k + 1) (Nat.succ_pos k) hkn)
  · exact (gone_after hreach hm hx hd hk fun j hj hjk => hnot j hj (by omega)).1.retired
  · obtain ⟨hgone, hstarts⟩ := gone_after hreach hm hx hd hn hnot
    exact ⟨hstarts, hgone.no_source (hreach.after n)⟩
  · -- an instance that is gone gets no unfinished operation, so it stays gone
    suffices ∀ k, ∀ f ∈ marks (m.after client k).stack, f.isUnfinishedFor i = false by
      intro hschedules
      obtain ⟨f, hf, hfor⟩ := hschedules.unfinished
      rw [this k f hf] at hfor
      cases hfor
    have hstart : ∀ f ∈ marks m.stack, f.isUnfinishedFor i = false :=
      fun f hf => hstack f (Machine.mem_marks hf)
    obtain ⟨hgone, -, hsame⟩ := gone_of_disposes hreach hm hx hd
    have hafter (n : Nat) : (m.after client (n + 1)).world.Gone i ∧
        ∀ f ∈ marks (m.after client (n + 1)).stack, f.isUnfinishedFor i = false := by
      induction n with
      | zero => exact ⟨hgone, fun f hf => hstart f (hsame ▸ hf)⟩
      | succ n ih =>
          obtain ⟨hbefore, hnone⟩ := ih
          have hnot : ¬ (m.after client (n + 1)).SchedulesFor i := by
            intro hschedules
            obtain ⟨f, hf, hfor⟩ := hschedules.unfinished
            rw [hnone f hf] at hfor
            cases hfor
          exact ⟨hbefore.step client (hreach.after (n + 1)).desk hnot,
            hbefore.unfinished client hnone⟩
    intro n
    cases n with
    | zero => exact hstart
    | succ n => exact (hafter n).2

/-- A program that disposes an instance with an attached ready hook and then iterates. -/
def disposer : Client Unit Nat (Routine Nat) :=
  .ofRoutines
    (fun
      | 0 => { acts := [.command (.newContext { clock := .manual }),
          .command (.construct
            { ofClass := .simple .empty [] (some (.immediate 1)), context := ⟨0⟩ }),
          .command (.dispose ⟨1⟩), .command (.iterate ⟨0⟩)] }
      | _ => {})
    [.object ⟨1⟩]

set_option maxRecDepth 100000 in
/-- The ready hook of `disposer` is removed with its instance and never starts. -/
theorem nothing_after_disposal_disposer :
    let m : Machine Unit Nat (Routine Nat) := (Machine.initial () 0).after disposer 8
    m.disposes ⟨1⟩ = true ∧ m.HasSourceOf ⟨1⟩ ∧
      ∀ n, 0 < n → (m.after disposer n).startsFor ⟨1⟩ = false ∧
        ((m.after disposer n).stack.length ≤ 1 → ¬ (m.after disposer n).HasSourceOf ⟨1⟩) := by
  intro m
  have hreach : Reachable disposer m := (Reachable.initial () 0).after 8
  have hm : m.disposes ⟨1⟩ = true := by decide +kernel
  have halive : (m.world.instance? ⟨1⟩).map (·.disposed) = some false := by decide +kernel
  have hsource : (m.source? ⟨0⟩ ⟨0⟩).map (·.work.owner?) = some (some ⟨1⟩) := by decide +kernel
  have hone : m.stack.length = 1 := by decide +kernel
  obtain ⟨x, hx, hd⟩ := Option.map_eq_some_iff.mp halive
  obtain ⟨s, hs, howner⟩ := Option.map_eq_some_iff.mp hsource
  obtain ⟨-, hrest, hclean⟩ := nothing_after_disposal disposer hreach hm hx hd
  refine ⟨hm, ⟨⟨0⟩, ⟨0⟩, s, hs, howner⟩, fun n hn => hrest n hn fun k _ _ => hclean ?_ k⟩
  obtain ⟨rest, inv, hstack⟩ := hreach.outside hone
  intro f hf
  rw [hstack, List.mem_singleton] at hf
  cases hf

/-- A program that constructs an instance whose init hook disposes it, and then iterates. -/
def selfDisposer : Client Unit Nat (Routine Nat) :=
  .ofRoutines
    (fun
      | 0 => { acts := [.command (.newContext { clock := .manual }),
          .command (.construct
            { ofClass := .simple .empty [1] (some (.immediate 2)), context := ⟨0⟩ }),
          .command (.iterate ⟨0⟩)] }
      | 1 => { acts := [.command (.dispose ⟨1⟩)] }
      | _ => {})
    [.object ⟨1⟩]

set_option maxRecDepth 100000 in
/-- The instance of `selfDisposer` is disposed in the middle of its construction. The construction
attaches its ready hook all the same, and the hook starts in the next iteration. -/
theorem starts_after_disposal :
    let m : Machine Unit Nat (Routine Nat) := .initial () 0
    (m.after selfDisposer 9).disposes ⟨1⟩ = true ∧
      ((m.after selfDisposer 9).world.instance? ⟨1⟩).map (·.disposed) = some false ∧
      (m.after selfDisposer 12).stack.length = 1 ∧
      ((m.after selfDisposer 12).source? ⟨0⟩ ⟨0⟩).map (·.work.owner?) = some (some ⟨1⟩) ∧
      ((m.after selfDisposer 12).world.instance? ⟨1⟩).map (·.disposed) = some true ∧
      (m.after selfDisposer 16).startsFor ⟨1⟩ = true := by
  decide +kernel

end ObjectSystem
