import ObjectSystem.Proofs.Leftovers

/-!
# Records are kept up

An instance keeps a record of the sources that do deferred work for it, and this record is edited
wherever such a source is attached, starts or is removed: by the end of a construction, by calls of
debounced methods, by iterations and by disposals, each with callbacks in between. What waits is on
record (`Machine.Reachable.tracked`); here is the converse: what is on record waits
(`World.Current`).

A step keeps this unless it removes by its identity a source that does deferred work
(`Machine.SparesDuties`). The identity of such a source is told to nobody, so a program that removes
only what it has been handed spares them all (`Machine.RemovesHanded.spares`). All along the run of
such a program record and sources say the same (`Machine.Reachable.demands_iff`).
-/

namespace ObjectSystem

variable {σ β κ : Type}

open Machine (marks Reachable)

/-! ## What is on record -/

namespace Duties

/-- Whether a source is on record: as the timer of a method, or as one of a ready hook. -/
def Expects (d : Duties β) (id : SourceId) : Option String → Prop
  | none => id ∈ d.readySources
  | some name => (d.burst name).pending = some id

/-- A record loses entries at most. -/
structure Shrinks (d d' : Duties β) : Prop where
  context : d'.context = d.context
  ready : d'.readySources.Sublist d.readySources
  pending : ∀ name id, (d'.burst name).pending = some id → (d.burst name).pending = some id

theorem Shrinks.refl (d : Duties β) : Shrinks d d :=
  ⟨rfl, List.Sublist.refl _, fun _ _ h => h⟩

theorem Shrinks.expects {d d' : Duties β} (h : d.Shrinks d') {id : SourceId}
    {name? : Option String} (hid : d'.Expects id name?) : d.Expects id name? := by
  cases name? with
  | none => exact h.ready.subset hid
  | some name => exact h.pending name id hid

/-- Nothing is on record. -/
def Clear (d : Duties β) : Prop := ∀ id name?, ¬ d.Expects id name?

end Duties

namespace World

/-- An instance of a context has a source on record. -/
def Demands (w : World β) (c : ContextId) (i : InstanceId) (id : SourceId)
    (name? : Option String) : Prop :=
  ∃ d, w.duties? i = some d ∧ d.context = c ∧ d.Expects id name?

/-- A source waits to do just some work. -/
def Holds (w : World β) (c : ContextId) (i : InstanceId) (id : SourceId)
    (name? : Option String) : Prop :=
  ∃ s, s.id = id ∧ s.work.entry? = some (i, name?) ∧ w.Waits c s

/-- What is on record waits to do the recorded work, and is on record once. -/
structure Current (w : World β) : Prop where
  holds : ∀ c i id name?, w.Demands c i id name? → w.Holds c i id name?
  once : ∀ i d, w.duties? i = some d → d.readySources.Nodup

/-- Records lose entries at most; nothing is on record of new instances. -/
def Strikes (w v : World β) : Prop :=
  ∀ i d', v.duties? i = some d' → (∃ d, w.duties? i = some d ∧ d.Shrinks d') ∨ d'.Clear

section
variable {u v w : World β} {i j : InstanceId} {c : ContextId} {id : SourceId}
  {name? : Option String}

theorem Strikes.demands (h : Strikes w v) (hd : v.Demands c i id name?) :
    w.Demands c i id name? := by
  obtain ⟨d', hd', hcontext, hid⟩ := hd
  rcases h i d' hd' with ⟨d, hd, hshrinks⟩ | hclear
  · exact ⟨d, hd, hshrinks.context.symm.trans hcontext, hshrinks.expects hid⟩
  · exact absurd hid (hclear id name?)

/-- A change that leaves alone what stays on record keeps the records current. -/
theorem Current.strikes (h : w.Current) (hs : Strikes w v)
    (hw : ∀ c i name? s, v.Demands c i s.id name? → s.work.entry? = some (i, name?) →
      w.Waits c s → v.Waits c s) : v.Current := by
  refine ⟨fun c i id name? hd => ?_, fun i d' hd' => ?_⟩
  · obtain ⟨s, rfl, hentry, hwaits⟩ := h.holds c i id name? (hs.demands hd)
    exact ⟨s, rfl, hentry, hw c i name? s hd hentry hwaits⟩
  · rcases hs i d' hd' with ⟨d, hd, hshrinks⟩ | hclear
    · exact (h.once i d hd).sublist hshrinks.ready
    · have hnone : d'.readySources = [] :=
        List.eq_nil_iff_forall_not_mem.mpr fun id hid => hclear id none hid
      rw [hnone]
      exact List.nodup_nil

theorem strikes_of_eq (h : ∀ i, v.duties? i = w.duties? i) : Strikes w v :=
  fun i d' hd' => .inl ⟨d', (h i).symm.trans hd', .refl d'⟩

theorem Steady.strikes (h : Steady w v) : Strikes w v :=
  fun _ d' hd' => .inl ⟨d', h.duties_of_some hd', .refl d'⟩

theorem Current.steady (h : w.Current) (hw : Steady w v) : v.Current :=
  h.strikes hw.strikes fun _ _ _ _ _ _ hwaits => hwaits.steady hw

theorem strikes_modifyInstance (w : World β) (i : InstanceId) {f : Instance β → Instance β}
    (hf : ∀ x, w.instance? i = some x → x.duties.Shrinks (f x).duties ∨ (f x).duties.Clear) :
    Strikes w (w.modifyInstance i f) := by
  intro j d' hd'
  rw [duties?_modifyInstance] at hd'
  split at hd'
  · next hj =>
    subst hj
    obtain ⟨x, hx, rfl⟩ := Option.map_eq_some_iff.mp hd'
    exact (hf x hx).imp_left fun hshrinks => ⟨x.duties, duties?_eq hx, hshrinks⟩
  · exact .inl ⟨d', hd', .refl d'⟩

/-- A method gets a burst without a timer. -/
theorem strikes_setBurst (w : World β) (i : InstanceId) (name : String) {burst : Burst}
    (hpending : burst.pending = none) : Strikes w (w.modifyInstance i (·.setBurst name burst)) := by
  refine strikes_modifyInstance w i fun x _ => .inl ⟨rfl, List.Sublist.refl _, fun other id h => ?_⟩
  rw [Duties.burst_setBurst] at h
  split at h
  · rw [hpending] at h
    cases h
  · exact h

theorem strikes_record {x : Instance β} (hx : w.instance? i = some x) (name : String)
    (trigger : Trigger) (args : List Value) :
    Strikes w (w.modifyInstance i (·.setBurst name ((x.burst name).record trigger args))) := by
  refine strikes_modifyInstance w i fun z hz => .inl ⟨rfl, List.Sublist.refl _, fun other id h => ?_⟩
  obtain rfl := Option.some.inj (hx.symm.trans hz)
  exact ((keeps_record x name trigger args).pending other).symm.trans h

theorem strikes_addInstance (w : World β) (ofClass : Class β) (c : ContextId) :
    Strikes w (w.addInstance ofClass c).1 := by
  intro i d' hd'
  rw [duties?_addInstance] at hd'
  rcases Option.or_eq_some_iff.mp hd' with hold | ⟨-, hnew⟩
  · exact .inl ⟨d', hold, .refl d'⟩
  · split at hnew
    · obtain rfl := Option.some.inj hnew
      refine .inr fun id name? hid => ?_
      cases name? <;> cases hid
    · cases hnew

theorem clear_dispose (x : Instance β) : x.dispose.duties.Clear := by
  intro id name? hid
  cases name? with
  | none => cases hid
  | some name =>
    have hpending : (x.dispose.duties.burst name).pending = some id := hid
    rw [Duties.burst_dispose] at hpending
    cases hpending

theorem strikes_dispose (w : World β) (i : InstanceId) : Strikes w (w.dispose i) := by
  refine dispose_induction w i (strikes_of_eq fun _ => rfl) fun x _ _ => ?_
  exact strikes_modifyInstance _ i fun x _ => .inr (clear_dispose x)

/-- The disposal of an instance leaves the sources of the others alone, and nothing of its own is on
record any more. -/
theorem Current.dispose (h : w.Current) (haccurate : w.Accurate) (i : InstanceId) :
    (w.dispose i).Current := by
  refine dispose_induction w i h fun x hx hd => ?_
  rw [← dispose_eq hx hd]
  refine h.strikes (strikes_dispose w i) fun c j name? s hdemands hentry hwaits => ?_
  refine hwaits.dispose haccurate hentry fun hij => ?_
  subst hij
  obtain ⟨d', hd', -, hid⟩ := hdemands
  rw [duties?_dispose hx hd, if_pos rfl] at hd'
  obtain rfl := Option.some.inj hd'
  exact clear_dispose x s.id name? hid

/-! ## New entries -/

theorem Holds.setContext_attachNow {y : MainContext β} (h : w.Holds c i id name?)
    {d : ContextId} (hy : w.context? d = some y) (kind : SourceKind) (priority : Priority)
    (work : SourceWork β) : (w.setContext d (y.attachNow kind priority work).1).Holds c i id name? := by
  obtain ⟨s, hid, hentry, hwaits⟩ := h
  exact ⟨s, hid, hentry, hwaits.attachNow hy kind priority work⟩

/-- A source that is attached waits. -/
theorem holds_attachNow {y : MainContext β} (hy : w.context? c = some y) (kind : SourceKind)
    (priority : Priority) {work : SourceWork β} (hwork : work.entry? = some (i, name?)) :
    (w.setContext c (y.attachNow kind priority work).1).Holds c i ⟨y.nextSource⟩ name? := by
  have ht := timetable?_setContext w hy (y := (y.attachNow kind priority work).1) (d := c)
  rw [if_pos rfl] at ht
  refine ⟨y.timetable.fresh kind priority work, rfl, hwork, _, ht, _, ?_, rfl, rfl, rfl, rfl, rfl⟩
  exact List.mem_append_right _ (List.mem_singleton.mpr rfl)

/-- A ready hook that is attached comes on record, under an identity that was not. -/
theorem Current.scheduleReady (h : w.Current) (haccurate : w.Accurate) (i : InstanceId)
    (typeName : String) (hook : ReadyHook β) : (w.scheduleReady i typeName hook).Current := by
  refine scheduleReady_induction w i typeName hook h fun x y hx hy => ?_
  have hrecord (j : InstanceId) (d' : Duties β)
      (hd' : (World.modifyInstance (w.setContext x.context
        (y.attachNow .idle .standard (.ready i typeName hook)).1) i
          (·.trackReady ⟨y.nextSource⟩)).duties? j = some d') :
      w.duties? j = some d' ∨ j = i ∧ d' = (x.trackReady ⟨y.nextSource⟩).duties := by
    rw [duties?_modifyInstance] at hd'
    split at hd'
    · next hj =>
      subst hj
      rw [show (w.setContext x.context _).instance? j = some x from hx] at hd'
      exact .inr ⟨rfl, (Option.some.inj hd').symm⟩
    · exact .inl hd'
  have hold {c : ContextId} {j : InstanceId} {id : SourceId} {name? : Option String}
      (hd : w.Demands c j id name?) :=
    (h.holds c j id name? hd).setContext_attachNow hy .idle .standard (.ready i typeName hook)
  refine ⟨fun c j id name? hdemand => ?_, fun j d' hd' => ?_⟩
  · obtain ⟨d', hd', hcontext, hid⟩ := hdemand
    rcases hrecord j d' hd' with hd | ⟨rfl, rfl⟩
    · exact hold ⟨d', hd, hcontext, hid⟩
    · cases name? with
      | some name => exact hold ⟨x.duties, duties?_eq hx, hcontext, hid⟩
      | none =>
        rcases List.mem_append.mp hid with hid | hnew
        · exact hold ⟨x.duties, duties?_eq hx, hcontext, hid⟩
        · obtain rfl := List.mem_singleton.mp hnew
          obtain rfl := hcontext
          exact holds_attachNow hy .idle .standard rfl
  · rcases hrecord j d' hd' with hd | ⟨rfl, rfl⟩
    · exact h.once j d' hd
    · refine List.Nodup.append (h.once j _ (duties?_eq hx)) (List.nodup_singleton _) ?_
      rintro id hid hnew
      obtain rfl := List.mem_singleton.mp hnew
      -- identities on record have been given
      obtain ⟨t, ht, hlt, -⟩ := haccurate j _ (duties?_eq hx) _ none hid
      obtain rfl := Option.some.inj (ht.symm.trans (timetable?_eq hy))
      exact Nat.lt_irrefl _ hlt

theorem Current.scheduleHooks (h : w.Current) (haccurate : w.Accurate) (hgiven : w.Given)
    (i : InstanceId) (x : Instance β) : (w.scheduleHooks i x).Current := by
  have hall := scheduleHooks_induction (P := fun v => v.Current ∧ v.Accurate ∧ v.Given) w i x
    ⟨h, haccurate, hgiven⟩ fun v typeName hook ⟨hv, haccurate, hgiven⟩ => by
      have hedited := edited_scheduleReady v i typeName hook
      exact ⟨hv.scheduleReady haccurate i typeName hook,
        haccurate.enters (enters_scheduleReady hgiven i typeName hook) hedited.continues,
        hgiven.edited hedited⟩
  exact hall.1

/-- Starting an interval changes one entry of the record of one instance. -/
theorem record_restartBurst {name : String} {debounce : Debounce} {callback : β} {d' : Duties β}
    (hd' : (w.restartBurst i name debounce callback).duties? j = some d') :
    ∃ d, w.duties? j = some d ∧ d'.context = d.context ∧ d'.readySources = d.readySources ∧
      ∀ other, (i, name) ≠ (j, other) → d'.burst other = d.burst other := by
  revert hd'
  refine restartBurst_induction w i name debounce callback
    (fun hd' => ⟨d', hd', rfl, rfl, fun _ _ => rfl⟩) fun x y hx hy hd' => ?_
  rw [duties?_modifyInstance] at hd'
  split at hd'
  · next hj =>
    subst hj
    have hsame (u : MainContext β) : ((w.detachSources x.context
        (x.burst name).pending.toList).setContext x.context u).instance? j = some x := hx
    rw [hsame] at hd'
    obtain rfl := Option.some.inj hd'
    refine ⟨x.duties, duties?_eq hx, rfl, rfl, fun other hne => ?_⟩
    rw [Duties.burst_setBurst, if_neg]
    rintro rfl
    exact hne rfl
  · exact ⟨d', hd', rfl, rfl, fun _ _ => rfl⟩

/-- The timer that starts an interval comes on record in the place of the one before. -/
theorem Current.restartBurst (h : w.Current) (haccurate : w.Accurate) (i : InstanceId)
    (name : String) (debounce : Debounce) (callback : β) :
    (w.restartBurst i name debounce callback).Current := by
  refine ⟨fun c j id name? ⟨d', hd', hcontext, hid⟩ => ?_, fun j d' hd' => ?_⟩
  · obtain ⟨d, hd, hsame, hready, hbursts⟩ := record_restartBurst hd'
    have hdemands (hold : d.Expects id name?) : w.Demands c j id name? :=
      ⟨d, hd, hsame.symm.trans hcontext, hold⟩
    by_cases hpair : (i, some name) = (j, name?)
    · cases hpair
      obtain ⟨x, hx, rfl⟩ := Option.map_eq_some_iff.mp hd
      cases ht : w.timetable? x.context with
      | some t =>
        obtain ⟨hburst, hwaits⟩ := restartBurst_views hx ht name debounce callback
        have hpending : (d'.burst name).pending = some id := hid
        rw [hburst d' hd'] at hpending
        obtain rfl := Option.some.inj hpending
        obtain rfl : x.context = c := hsame.symm.trans hcontext
        exact ⟨_, rfl, rfl, hwaits⟩
      | none =>
        -- without a context nothing was on record, and nothing comes on record
        rw [restartBurst_of_absent fun z hz => by
          cases hx.symm.trans hz
          exact Option.map_eq_none_iff.mp ht] at hd'
        obtain rfl := Option.some.inj (hd'.symm.trans hd)
        obtain ⟨s, -, -, t, hsome, -⟩ := h.holds c i id _ (hdemands hid)
        rw [← hcontext, show x.duties.context = x.context from rfl, ht] at hsome
        cases hsome
    · have hold : d.Expects id name? := by
        cases name? with
        | none => exact (show id ∈ d.readySources from hready ▸ hid)
        | some other =>
          have hpending : (d'.burst other).pending = some id := hid
          rwa [hbursts other fun heq => hpair (by cases heq; rfl)] at hpending
      obtain ⟨s, hs, hentry, hwaits⟩ := h.holds c j id name? (hdemands hold)
      exact ⟨s, hs, hentry, hwaits.restartBurst haccurate hentry hpair debounce callback⟩
  · obtain ⟨d, hd, -, hready, -⟩ := record_restartBurst hd'
    rw [hready]
    exact h.once j d hd

/-! ## Sources that start -/

/-- A source that starts is struck off the record. -/
theorem not_demands_startWork {work : SourceWork β} (hwork : work.entry? = some (i, name?))
    (c d : ContextId) : ¬ (w.startWork c id work []).world.Demands d i id name? := by
  rintro ⟨e, he, -, hid⟩
  have untracked {j : InstanceId} (hentry : (j, none) = (i, name?))
      (he : (w.modifyInstance j (·.untrackReady id)).duties? i = some e) : False := by
    cases hentry
    rw [duties?_modifyInstance, if_pos rfl] at he
    obtain ⟨x, -, rfl⟩ := Option.map_eq_some_iff.mp he
    have hid : id ∈ x.readySources.filter (· ≠ id) := hid
    simp at hid
  have ended {j : InstanceId} {name : String} {trigger : Trigger} {burst : Burst}
      (hentry : (j, some name) = (i, name?))
      (he : (w.modifyInstance j (·.setBurst name (burst.finish trigger).1)).duties? i = some e) :
      False := by
    cases hentry
    rw [duties?_modifyInstance, if_pos rfl] at he
    obtain ⟨x, -, rfl⟩ := Option.map_eq_some_iff.mp he
    have hpending : (((x.setBurst name (burst.finish trigger).1).duties.burst name)).pending =
        some id := hid
    rw [Duties.burst_setBurst, if_pos rfl, Burst.pending_finish] at hpending
    cases hpending
  refine startWork_cases (P := fun work p =>
    work.entry? = some (i, name?) → p.world.duties? i = some e → False) w c id work []
    ?_ ?_ ?_ ?_ ?_ ?_ ?_ ?_ hwork he
  · exact fun callback hentry _ => by cases hentry
  · exact fun callback hentry _ => by cases hentry
  · intro j typeName hook hnone hentry he
    cases hentry
    obtain ⟨x, hx, -⟩ := Option.map_eq_some_iff.mp he
    cases hnone.symm.trans hx
  · exact fun j typeName callback _ hentry he => untracked (Option.some.inj hentry) he
  · exact fun j typeName callback _ hentry he => untracked (Option.some.inj hentry) he
  · intro j name trigger callback hnone hentry he
    cases hentry
    obtain ⟨x, hx, rfl⟩ := Option.map_eq_some_iff.mp he
    have hpending : (x.duties.burst name).pending = some id := hid
    rw [Duties.burst, show x.duties.bursts.find? name = none from hnone x hx] at hpending
    cases hpending
  · exact fun j name trigger callback x burst _ _ _ hentry he =>
      ended (Option.some.inj hentry) he
  · exact fun j name trigger callback x burst args _ _ _ hentry he =>
      ended (Option.some.inj hentry) he

theorem strikes_startWork (w : World β) (c : ContextId) (id : SourceId) (work : SourceWork β) :
    Strikes w (w.startWork c id work []).world := by
  refine startWork_induction w c id work [] (strikes_of_eq fun _ => rfl) ?_ ?_
  · exact fun i typeName hook _ =>
      strikes_modifyInstance w i fun x _ => .inl ⟨rfl, List.filter_sublist, fun _ _ h => h⟩
  · exact fun i name trigger callback burst _ =>
      strikes_setBurst w i name (burst.pending_finish trigger)

/-- The start of a source strikes it off the record, and leaves all others alone. -/
theorem Current.startWork (h : w.Current) {x y : MainContext β} {work : SourceWork β}
    (hnodup : (x.timetable.sources.map (·.id)).Nodup) (hx : w.context? c = some x)
    (hb : x.beginRun id = some (y, work)) :
    ((w.setContext c y).startWork c id work []).world.Current := by
  have hset : Strikes w (w.setContext c y) := strikes_of_eq fun _ => rfl
  refine h.strikes (v := ((w.setContext c y).startWork c id work []).world) ?_ ?_
  · exact fun i d' hd' => strikes_startWork (w.setContext c y) c id work i d' hd'
  · intro d i name? s hdemands hentry hwaits
    refine Waits.of_eq (hwaits.beginRun hx hb ?_) (Turn.timetable?_startWork _ c id work d)
    rintro rfl rfl
    -- the source that starts is this one, and it is struck off
    refine not_demands_startWork ?_ c c hdemands
    obtain ⟨r, hr, -, rfl, -⟩ := MainContext.of_beginRun hb
    obtain ⟨t, ht, r', hr', hid, -, hwork, -⟩ := hwaits
    obtain rfl := Option.some.inj (ht.symm.trans (timetable?_eq hx))
    have hfound := Timetable.source?_of_mem hnodup hr'
    rw [hid, hr] at hfound
    rw [Option.some.inj hfound, hwork]
    exact hentry

end

end World

/-! ## Steps -/

namespace Machine

/-- What is about to be removed by its identity, if anything, does no work for an instance. -/
def SparesDuties (m : Machine σ β κ) : Prop :=
  ∀ c id, m.removal? = some (c, id) → ∀ s, m.source? c id = some s → s.work.owner? = none

end Machine

theorem SourceWork.owner?_of_entry? {work : SourceWork β} {i : InstanceId} {name? : Option String}
    (h : work.entry? = some (i, name?)) : work.owner? = some i := by
  cases work <;> cases h <;> rfl

section
variable {m m' : Machine σ β κ}

/-- A turn keeps the records current unless it removes a source that does deferred work. -/
theorem Turn.current (h : Turn m m') (hsound : ∀ c, (m.desk c).Sound) (haccurate : m.world.Accurate)
    (hspares : m.SparesDuties) (hw : m.world.Current) : m'.world.Current := by
  have hgiven : m.world.Given := fun c t ht => ((hsound c).present t ht).fresh
  -- a change that leaves all records as they are
  have edit {w : World β} (hsteady : World.Steady w m'.world)
      (hd : ∀ i, w.duties? i = m.world.duties? i)
      (hwaits : ∀ c i name? s, m.world.Demands c i s.id name? → s.work.entry? = some (i, name?) →
        m.world.Waits c s → w.Waits c s) : m'.world.Current := by
    refine World.Current.steady (hw.strikes (World.strikes_of_eq hd) ?_) hsteady
    exact fun c i name? s hdemands => hwaits c i name? s ((World.strikes_of_eq hd).demands hdemands)
  cases h with
  | still hsteady hs hc => exact hw.steady hsteady
  | opens config hsteady hs hc =>
    exact edit hsteady (fun _ => rfl) fun _ _ _ _ _ _ h => h.addContext config
  | ticks c now hm hsteady hs hc =>
    exact edit hsteady (fun _ => rfl) fun _ _ _ _ _ _ h => h.setTime c now
  | attaches c x kind priority work hx hp hsteady hs hc =>
    exact edit hsteady (fun _ => rfl) fun _ _ _ _ _ _ h => h.attachNow hx kind priority work
  | detaches c x id hm hx hsteady hs hc =>
    refine edit hsteady (fun _ => rfl) fun d i name? s _ hentry hwaits => hwaits.detach hx ?_
    rintro rfl rfl
    -- what is removed does no deferred work
    obtain ⟨t, ht, r, hr, hid, -, hwork, -⟩ := hwaits
    have hfound := Timetable.source?_of_mem ((hsound c).present t ht).nodup hr
    rw [hid] at hfound
    have hremoval : m.removal? = some (c, s.id) := by
      unfold Machine.removal?
      rw [hm]
    have hnone := hspares c s.id hremoval r ((Machine.source?_eq ht s.id).trans hfound)
    rw [hwork, SourceWork.owner?_of_entry? hentry] at hnone
    cases hnone
  | creates ofClass c hsteady hs hc =>
    refine World.Current.steady (hw.strikes (World.strikes_addInstance _ ofClass c) ?_) hsteady
    exact fun _ _ _ _ _ _ hwaits => hwaits.of_eq rfl
  | disposes i hm hsteady hs hc => exact (hw.dispose haccurate i).steady hsteady
  | calls i name args x callback hm hx hd hf hsteady hs hc => exact hw.steady hsteady
  | callsAtOnce i name args x callback debounce hm hx hd hf hr hsteady hs hc =>
    refine World.Current.steady ?_ hsteady
    refine hw.strikes (World.strikes_record hx name debounce.trigger args) ?_
    exact fun _ _ _ _ _ _ hwaits => hwaits.of_eq rfl
  | callsLater i name args x callback debounce hm hx hd hf hr hsteady hs hc =>
    refine World.Current.steady (World.Current.restartBurst ?_ ?_ i name debounce callback) hsteady
    · refine hw.strikes (World.strikes_record hx name debounce.trigger args) ?_
      exact fun _ _ _ _ _ _ hwaits => hwaits.of_eq rfl
    · refine haccurate.enters (World.enters_record hx name debounce.trigger args) ?_
      exact (World.edited_modifyInstance i _).continues
  | startsInterval i name debounce callback hsteady hs hc =>
    exact (hw.restartBurst haccurate i name debounce callback).steady hsteady
  | constructs f rest i hf hsteady hs hs' hc => exact hw.steady hsteady
  | schedules i x hx hsteady hs hc =>
    exact (hw.scheduleHooks haccurate hgiven i x).steady hsteady
  | collects c x worked hx hsteady hs hc =>
    exact edit hsteady (fun _ => rfl) fun _ _ _ _ _ _ h => h.collectReady hx
  | skips c id ready worked rest hx hsteady hs hs' hc => exact hw.steady hsteady
  | begins c id ready worked rest x y work hx hb hsteady hs hs' hc =>
    exact (hw.startWork ((hsound c).present _ (World.timetable?_eq hx)).nodup hx hb).steady hsteady
  | ends c id mayStay stays hstay hsteady hs hc =>
    refine edit hsteady (fun _ => rfl) fun d i name? s _ hentry hwaits => hwaits.endRun stays ?_
    rintro rfl x hx r hr rfl
    have hrunning := List.mem_map_of_mem (f := (·.1)) (Machine.running_of_sourceEnd hs)
    exact (((hsound c).present _ (World.timetable?_eq hx)).runs r hr).mpr hrunning
  | closes c worked hsteady hs hc => exact hw.steady hsteady

end

/-! ## Identities that are handed out -/

/-- An identity has been given, and any source that has it does work of a kind. -/
def World.Assigned (w : World β) (c : ContextId) (id : SourceId) (kind : SourceWork β → Prop) :
    Prop :=
  ∃ t, w.timetable? c = some t ∧ id.number < t.nextSource ∧
    ∀ s ∈ t.sources, s.id = id → kind s.work

namespace Machine

variable {client : Client σ β κ} {m : Machine σ β κ} {c : ContextId} {id : SourceId} {n : Nat}

/-- No source gets an identity that was given before. -/
theorem assigned_after (hreach : Reachable client m) {kind : SourceWork β → Prop}
    (h : m.world.Assigned c id kind) (n : Nat) : (m.after client n).world.Assigned c id kind := by
  induction n with
  | zero => exact h
  | succ n ih =>
    obtain ⟨t, ht, hlt, hkind⟩ := ih
    obtain ⟨t', ht', hcontinues⟩ :=
      ((turn_step client _).desk c).continues ((hreach.after n).desk c) ht
    refine ⟨t', ht', Nat.lt_of_lt_of_le hlt hcontinues.next, fun s' hs' hid => ?_⟩
    rcases hcontinues.old s' hs' with ⟨s, hs, hsame, hwork⟩ | hnew
    · rw [hwork]
      exact hkind s hs (hsame.symm.trans hid)
    · rw [hid] at hnew
      exact absurd hlt (Nat.not_lt.mpr hnew)

/-- The context to which a program is about to attach a source of its own. -/
def adds? (m : Machine σ β κ) : Option ContextId :=
  match m.control with
  | .perform (.addIdle c ..) => some c
  | .perform (.addTimeout c ..) => some c
  | _ => none

/-- Within so many steps the identity was the reply to a command that attached a source. -/
def Handed (client : Client σ β κ) (m : Machine σ β κ) (n : Nat) (c : ContextId) (id : SourceId) :
    Prop :=
  ∃ k < n, (m.after client k).adds? = some c ∧
    (m.after client (k + 1)).control = .deliver (.source id)

/-- Within so many steps, only sources are removed whose identities were handed out. -/
def RemovesHanded (client : Client σ β κ) (m : Machine σ β κ) (n : Nat) : Prop :=
  ∀ k < n, ∀ c id, (m.after client k).removal? = some (c, id) → m.Handed client k c id

theorem RemovesHanded.mono (h : m.RemovesHanded client n) {k : Nat} (hk : k ≤ n) :
    m.RemovesHanded client k :=
  fun j hj => h j (Nat.lt_of_lt_of_le hj hk)

/-- The source whose identity a program is told runs a callback of the program. -/
theorem assigned_of_adds (hreach : Reachable client m) (hadds : m.adds? = some c)
    (hreply : (m.step client).control = .deliver (.source id)) :
    (m.step client).world.Assigned c id fun work => work.isPlain = true := by
  have attached {command : Command β} (hm : m.control = .perform command) {kind : SourceKind}
      {priority : Priority} {once : Bool} {callback : β}
      (hadd : m.world.perform command = m.world.addSource c
        (·.attachNow kind priority (World.callbackWork once callback))) :
      (m.step client).world.Assigned c id fun work => work.isPlain = true := by
    have hf := follows_perform client hm
    have hcontrol := hf.control
    have htimetable := hf.world.timetable c
    rw [hadd] at hcontrol htimetable
    unfold World.addSource at hcontrol htimetable
    cases hx : m.world.context? c with
    | none =>
      rw [hx] at hcontrol
      cases hcontrol.symm.trans hreply
    | some x =>
      rw [hx] at hcontrol htimetable
      cases hcontrol.symm.trans hreply
      have ht := World.timetable?_setContext m.world hx
        (y := (x.attachNow kind priority (World.callbackWork once callback)).1) (d := c)
      rw [if_pos rfl] at ht
      refine ⟨_, htimetable.trans ht, Nat.lt_succ_self _, fun s hs hid => ?_⟩
      rcases World.mem_attachNow hx ht hs with ⟨t, ht, hmem⟩ | ⟨-, rfl⟩
      · obtain rfl := Option.some.inj (ht.symm.trans (World.timetable?_eq hx))
        have hlt := ((hreach.desk c).present _ ht).fresh s hmem
        rw [hid] at hlt
        exact absurd hlt (Nat.lt_irrefl _)
      · cases once <;> rfl
  unfold adds? at hadds
  split at hadds
  · next hm =>
    cases hadds
    exact attached hm rfl
  · next hm =>
    cases hadds
    exact attached hm rfl
  · cases hadds

/-- What a program was handed does no work for an instance. -/
theorem RemovesHanded.spares (hreach : Reachable client m)
    (h : m.RemovesHanded client n) : ∀ k < n, (m.after client k).SparesDuties := by
  intro k hk c id hremoval s hs
  obtain ⟨j, hjk, hadds, hreply⟩ := h k hk c id hremoval
  have hassigned := assigned_of_adds (hreach.after j) hadds hreply
  obtain ⟨d, rfl⟩ := Nat.exists_eq_add_of_le (Nat.succ_le_of_lt hjk)
  rw [after_add] at hs
  obtain ⟨t, ht, -, hplain⟩ := assigned_after (hreach.after (j + 1)) hassigned d
  obtain ⟨hmem, hid⟩ := Timetable.mem_of_source? ((source?_eq ht id).symm.trans hs)
  exact SourceWork.owner?_of_isPlain (hplain s hmem hid)

/-! ## Every run -/

/-- **What is on record waits**, all along a run that removes only what was handed out. -/
theorem RemovesHanded.current {state : σ} {program : β}
    (h : (initial state program : Machine σ β κ).RemovesHanded client n) :
    ((initial state program : Machine σ β κ).after client n).world.Current := by
  have hreach : Reachable client (initial state program) := .initial state program
  have hspares := h.spares hreach
  clear h
  induction n with
  | zero =>
    refine ⟨fun c i id name? hd => ?_, fun i d hd => (by cases hd)⟩
    obtain ⟨d, hd, -⟩ := hd
    cases hd
  | succ n ih =>
    exact (turn_step client _).current (fun c => (hreach.after n).desk c) (hreach.after n).accurate
      (hspares n (Nat.lt_succ_self n)) (ih fun k hk => hspares k (Nat.lt_succ_of_lt hk))

/-- A source that waits is on the record of its instance. -/
theorem Reachable.demands (hreach : Reachable client m) {i : InstanceId} {name? : Option String}
    {d : Duties β} (hd : m.world.duties? i = some d) (h : m.world.Holds c i id name?) :
    m.world.Demands c i id name? := by
  obtain ⟨s, rfl, hentry, t, ht, r, hr, hid, -, hwork, -, hidle⟩ := h
  rw [← hwork] at hentry
  obtain ⟨-, hrecords⟩ :=
    hreach.tracked.tracks c t ht r hr i (SourceWork.owner?_of_entry? hentry)
  obtain ⟨hcontext, hrecord⟩ := hrecords hidle d hd
  refine ⟨d, hd, hcontext, ?_⟩
  rw [← hid]
  cases hw : r.work with
  | ready j typeName hook =>
    rw [hw] at hentry hrecord
    cases hentry
    exact hrecord
  | endOfBurst j name trigger callback =>
    rw [hw] at hentry hrecord
    cases hentry
    exact hrecord
  | repeating callback =>
    rw [hw] at hentry
    cases hentry
  | single callback =>
    rw [hw] at hentry
    cases hentry

/-- The record of an instance and the sources that wait say the same. -/
theorem Reachable.demands_iff (hreach : Reachable client m) (hcurrent : m.world.Current)
    {i : InstanceId} {name? : Option String} {d : Duties β} (hd : m.world.duties? i = some d) :
    m.world.Demands c i id name? ↔ m.world.Holds c i id name? :=
  ⟨hcurrent.holds c i id name?, hreach.demands hd⟩

end Machine

/-! ## Lists of sources -/

/-- The sources on record: the timer of a method, or those of ready hooks. -/
def Duties.expected (d : Duties β) : Option String → List SourceId
  | none => d.readySources
  | some name => (d.burst name).pending.toList

theorem Duties.mem_expected {d : Duties β} {id : SourceId} {name? : Option String} :
    id ∈ d.expected name? ↔ d.Expects id name? := by
  cases name? with
  | none => exact Iff.rfl
  | some name => exact Option.mem_toList

namespace World

/-- The attached sources of a context that do just some work. -/
def sourcesFor (w : World β) (c : ContextId) (i : InstanceId) (name? : Option String) :
    List (Source β) :=
  match w.timetable? c with
  | none => []
  | some t => t.sources.filter (·.work.entry? = some (i, name?))

/-- Those of them that have not started. -/
def waitingFor (w : World β) (c : ContextId) (i : InstanceId) (name? : Option String) :
    List SourceId :=
  ((w.sourcesFor c i name?).filter (!·.running)).map (·.id)

section
variable {w : World β} {c : ContextId} {i : InstanceId} {id : SourceId} {name? : Option String}

theorem mem_sourcesFor {s : Source β} : s ∈ w.sourcesFor c i name? ↔
    ∃ t, w.timetable? c = some t ∧ s ∈ t.sources ∧ s.work.entry? = some (i, name?) := by
  unfold sourcesFor
  cases w.timetable? c with
  | none => exact iff_of_false List.not_mem_nil fun ⟨_, ht, _⟩ => nomatch ht
  | some t => simp

theorem mem_waitingFor : id ∈ w.waitingFor c i name? ↔ w.Holds c i id name? := by
  simp only [waitingFor, List.mem_map, List.mem_filter, mem_sourcesFor, Bool.not_eq_true']
  constructor
  · rintro ⟨s, ⟨⟨t, ht, hs, hentry⟩, hidle⟩, hid⟩
    exact ⟨s, hid, hentry, t, ht, s, hs, rfl, rfl, rfl, rfl, hidle⟩
  · rintro ⟨s, hid, hentry, t, ht, r, hr, hsame, -, hwork, -, hidle⟩
    exact ⟨r, ⟨⟨t, ht, hr, hwork ▸ hentry⟩, hidle⟩, hsame.trans hid⟩

end

end World

namespace Machine

variable {client : Client σ β κ} {m : Machine σ β κ} {i : InstanceId} {d : Duties β}

theorem Reachable.nodup_sourcesFor (hreach : Reachable client m) (c : ContextId) (i : InstanceId)
    (name? : Option String) : ((m.world.sourcesFor c i name?).map (·.id)).Nodup := by
  unfold World.sourcesFor
  split
  · exact List.nodup_nil
  · next t ht =>
    exact ((hreach.desk c).present t ht).nodup.sublist (List.filter_sublist.map _)

/-- **The sources that wait for an instance are those on its record**, each once, and all in its own
context. -/
theorem Reachable.waitingFor_perm (hreach : Reachable client m) (hcurrent : m.world.Current)
    (hd : m.world.duties? i = some d) (name? : Option String) :
    (m.world.waitingFor d.context i name?).Perm (d.expected name?) ∧
      ∀ c, c ≠ d.context → m.world.waitingFor c i name? = [] := by
  constructor
  · have hnodup : (d.expected name?).Nodup := by
      cases name? with
      | none => exact hcurrent.once i d hd
      | some name =>
        show (d.burst name).pending.toList.Nodup
        cases (d.burst name).pending with
        | none => exact List.nodup_nil
        | some id => exact List.nodup_singleton id
    refine (List.perm_ext_iff_of_nodup ?_ hnodup).mpr fun id => ?_
    · exact (hreach.nodup_sourcesFor d.context i name?).sublist (List.filter_sublist.map _)
    · rw [World.mem_waitingFor, ← hreach.demands_iff hcurrent hd, Duties.mem_expected]
      constructor
      · rintro ⟨e, he, -, hid⟩
        cases hd.symm.trans he
        exact hid
      · exact fun hid => ⟨d, hd, rfl, hid⟩
  · intro c hne
    refine List.eq_nil_iff_forall_not_mem.mpr fun id hid => ?_
    obtain ⟨e, he, hcontext, -⟩ := hreach.demands hd (World.mem_waitingFor.mp hid)
    cases hd.symm.trans he
    exact hne hcontext.symm

end Machine

end ObjectSystem
