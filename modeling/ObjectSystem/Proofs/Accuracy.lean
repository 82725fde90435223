import ObjectSystem.Proofs.Ages
import ObjectSystem.Proofs.Fate

/-!
# Records are accurate

What an instance has on record is its own: a source with the identity of a recorded one does just the
recorded work (`Machine.Reachable.accurate`). So one instance never removes a source of another one,
and a source that waits goes on waiting until it starts, is removed by name, or its own instance
replaces or drops it (`Turn.waits`).
-/

namespace ObjectSystem

variable {σ β κ : Type}

open Machine (marks Reachable)

/-! ## Entries of a record -/

/-- The instance for which a source does deferred work, and the method whose burst it ends; a ready
hook has no method. -/
def SourceWork.entry? : SourceWork β → Option (InstanceId × Option String)
  | .ready i _ _ => some (i, none)
  | .endOfBurst i name _ _ => some (i, some name)
  | _ => none

/-- Work for a method is that of its timer. -/
theorem SourceWork.of_entry? {work : SourceWork β} {i : InstanceId} {name : String}
    (h : work.entry? = some (i, some name)) :
    ∃ trigger callback, work = .endOfBurst i name trigger callback := by
  cases work with
  | endOfBurst j other trigger callback =>
    cases h
    exact ⟨trigger, callback, rfl⟩
  | _ => cases h

namespace Duties

/-- Whether a source is on record for a method, or as one of a ready hook. -/
def Lists (d : Duties β) (id : SourceId) : Option String → Prop
  | none => id ∈ d.readySources
  | some name => ∃ burst, (name, burst) ∈ d.bursts.entries ∧ burst.pending = some id

/-- The timer of a burst is on record. -/
theorem lists_of_pending {d : Duties β} {name : String} {id : SourceId}
    (h : (d.burst name).pending = some id) : d.Lists id (some name) := by
  unfold burst at h
  cases hfind : d.bursts.find? name with
  | none =>
      rw [hfind] at h
      cases h
  | some burst =>
      rw [hfind] at h
      exact ⟨burst, NameTable.mem_of_find? hfind, h⟩

end Duties

namespace World

/-- Any source of an identity that a context has given does just some work. -/
def Devotes (w : World β) (c : ContextId) (id : SourceId) (i : InstanceId)
    (name? : Option String) : Prop :=
  ∃ t, w.timetable? c = some t ∧ id.number < t.nextSource ∧
    ∀ s ∈ t.sources, s.id = id → s.work.entry? = some (i, name?)

/-- What is on record is devoted to what the record says. -/
def Accurate (w : World β) : Prop :=
  ∀ i d, w.duties? i = some d → ∀ id name?, d.Lists id name? → w.Devotes d.context id i name?

/-- What is on record later was on record before, or is devoted to what the record says. -/
def Enters (w v : World β) : Prop :=
  ∀ i d', v.duties? i = some d' → ∀ id name?, d'.Lists id name? →
    (∃ d, w.duties? i = some d ∧ d.context = d'.context ∧ d.Lists id name?) ∨
      v.Devotes d'.context id i name?

/-- The identities of attached sources have been given. -/
def Given (w : World β) : Prop :=
  ∀ c t, w.timetable? c = some t → ∀ s ∈ t.sources, s.id.number < t.nextSource

end World

/-- After a change, a source is an old one or has a new identity. -/
structure Timetable.Continues (t t' : Timetable β) : Prop where
  next : t.nextSource ≤ t'.nextSource
  old : ∀ s' ∈ t'.sources,
    (∃ s ∈ t.sources, s'.id = s.id ∧ s'.work = s.work) ∨ t.nextSource ≤ s'.id.number

theorem Timetable.Edited.next {t u : Timetable β} (h : t.Edited u) :
    t.nextSource ≤ u.nextSource := by
  induction h with
  | refl => exact Nat.le_refl _
  | attach _ _ _ _ ih => exact Nat.le_succ_of_le ih
  | detach _ _ ih => exact ih

theorem Timetable.Edited.continues {t u : Timetable β} (h : t.Edited u) : t.Continues u :=
  ⟨h.next, fun s hs => (h.mem hs).imp (fun hold => ⟨s, hold, rfl, rfl⟩) fun hnew => hnew.1⟩

theorem Timetable.Edited.given {t u : Timetable β} (h : t.Edited u)
    (ht : ∀ s ∈ t.sources, s.id.number < t.nextSource) :
    ∀ s ∈ u.sources, s.id.number < u.nextSource := by
  induction h with
  | refl => exact ht
  | @attach v _ kind priority work ih =>
      intro s hs
      rcases List.mem_append.mp hs with hs | hs
      · exact Nat.lt_succ_of_lt (ih s hs)
      · rw [List.mem_singleton.mp hs]
        exact Nat.lt_succ_self _
  | detach _ id ih => exact fun s hs => ih s (List.mem_of_mem_filter hs)

/-- Every move on a desk continues its timetable. -/
theorem Desk.Move.continues {ticking : Prop} {d d' : Desk β} {t : Timetable β}
    (hm : Desk.Move ticking d d') (hsound : d.Sound) (ht : d.timetable = some t) :
    ∃ t', d'.timetable = some t' ∧ t.Continues t' := by
  obtain ⟨t', ht', -⟩ := hm.config ht
  have hnext : t.nextSource ≤ t'.nextSource := by
    have before {u : Timetable β} (hu : d.timetable = some u) : u = t :=
      Option.some.inj (hu.symm.trans ht)
    have after {u : Timetable β} (hu : d'.timetable = some u) : t' = u :=
      Option.some.inj (ht'.symm.trans hu)
    cases hm with
    | edits he hw hr =>
        rw [ht, ht'] at he
        cases he with
        | some he => exact he.next
    | opens config hnone _ hw hr => cases hnone.symm.trans ht
    | drops hnone _ hw hr => cases hnone.symm.trans ht
    | ticks u now htick hu hu' hw hr =>
        obtain rfl := after hu'
        obtain rfl := before hu
        exact Nat.le_refl _
    | collects u hu hu' hw hr =>
        obtain rfl := after hu'
        obtain rfl := before hu
        exact Nat.le_refl _
    | skips u id hu hu' hid hw hr =>
        obtain rfl := after hu'
        obtain rfl := before hu
        exact Nat.le_refl _
    | begins u id s hu hu' hs hrun hw hr =>
        obtain rfl := after hu'
        obtain rfl := before hu
        exact Nat.le_refl _
    | ends u id mayStay stays hstay hu hu' hw hr =>
        rw [after hu', before hu]
        unfold Timetable.settle
        split <;> exact Nat.le_refl _
  refine ⟨t', ht', hnext, fun s' hs' => ?_⟩
  cases hm.fate hsound ht ht' hs' with
  | fresh hs hid hrun hready => exact .inr hid
  | kept s hs hkind hwork hready hrun =>
      obtain ⟨hmem, hid⟩ := Timetable.mem_of_source? hs
      exact .inl ⟨s, hmem, hid.symm, hwork⟩
  | started s hs hkind hwork hready hold hrun hwait =>
      obtain ⟨hmem, hid⟩ := Timetable.mem_of_source? hs
      exact .inl ⟨s, hmem, hid.symm, hwork⟩
  | rearmed s hs hkind hwork hstay hold hrun hready =>
      obtain ⟨hmem, hid⟩ := Timetable.mem_of_source? hs
      exact .inl ⟨s, hmem, hid.symm, hwork⟩

namespace World

section
variable {u v w : World β}

theorem Devotes.continues {c : ContextId} {id : SourceId} {i : InstanceId} {name? : Option String}
    (h : w.Devotes c id i name?)
    (hc : ∀ t, w.timetable? c = some t → ∃ t', v.timetable? c = some t' ∧ t.Continues t') :
    v.Devotes c id i name? := by
  obtain ⟨t, ht, hlt, hwork⟩ := h
  obtain ⟨t', ht', hcontinues⟩ := hc t ht
  refine ⟨t', ht', Nat.lt_of_lt_of_le hlt hcontinues.next, fun s' hs' hid => ?_⟩
  rcases hcontinues.old s' hs' with ⟨s, hs, hsame, hsamework⟩ | hnew
  · rw [hsamework]
    exact hwork s hs (hsame.symm.trans hid)
  · rw [hid] at hnew
    omega

theorem Edited.continues (h : Edited w v) (c : ContextId) :
    ∀ t, w.timetable? c = some t → ∃ t', v.timetable? c = some t' ∧ t.Continues t' := by
  intro t ht
  have hc := h c
  rw [ht] at hc
  generalize v.timetable? c = t? at hc
  cases hc with
  | some he => exact ⟨_, rfl, he.continues⟩

theorem Accurate.enters (h : w.Accurate) (he : Enters w v)
    (hc : ∀ c t, w.timetable? c = some t → ∃ t', v.timetable? c = some t' ∧ t.Continues t') :
    v.Accurate := by
  intro i d' hd' id name? hlists
  rcases he i d' hd' id name? hlists with ⟨d, hd, hcontext, hold⟩ | hnew
  · rw [← hcontext]
    exact (h i d hd id name? hold).continues (hc d.context)
  · exact hnew

theorem Enters.trans (h : Enters u v) (g : Enters v w)
    (hc : ∀ c t, v.timetable? c = some t → ∃ t', w.timetable? c = some t' ∧ t.Continues t') :
    Enters u w := by
  intro i d'' hd'' id name? hlists
  rcases g i d'' hd'' id name? hlists with ⟨d', hd', hcontext', hl'⟩ | hnew
  · rcases h i d' hd' id name? hl' with ⟨d, hd, hcontext, hl⟩ | hnew
    · exact .inl ⟨d, hd, hcontext.trans hcontext', hl⟩
    · exact .inr (hcontext' ▸ hnew.continues (hc d'.context))
  · exact .inr hnew

theorem enters_of_eq (h : ∀ i, v.duties? i = w.duties? i ∨ v.duties? i = none) : Enters w v := by
  intro i d' hd' id name? hlists
  rcases h i with hi | hi
  · exact .inl ⟨d', hi.symm.trans hd', rfl, hlists⟩
  · rw [hi] at hd'
    cases hd'

theorem Steady.continues (h : Steady w v) :
    ∀ c t, w.timetable? c = some t → ∃ t', v.timetable? c = some t' ∧ t.Continues t' :=
  fun c t ht => ⟨t, (h.timetable c).trans ht, Nat.le_refl _, fun s hs => .inl ⟨s, hs, rfl, rfl⟩⟩

theorem Enters.steady (h : Enters u v) (hw : Steady v w) : Enters u w :=
  h.trans (enters_of_eq hw.duties) hw.continues

/-- A change of one instance that records nothing new. -/
theorem enters_modifyInstance (w : World β) (i : InstanceId) {f : Instance β → Instance β}
    (hf : ∀ x, w.instance? i = some x → (f x).context = x.context ∧
      ∀ id name?, (f x).duties.Lists id name? → x.duties.Lists id name?) :
    Enters w (w.modifyInstance i f) := by
  intro j d' hd' id name? hlists
  rw [duties?_modifyInstance] at hd'
  split at hd'
  · next hj =>
      subst hj
      obtain ⟨x, hx, rfl⟩ := Option.map_eq_some_iff.mp hd'
      obtain ⟨hcontext, hold⟩ := hf x hx
      exact .inl ⟨x.duties, duties?_eq hx, hcontext.symm, hold id name? hlists⟩
  · exact .inl ⟨d', hd', rfl, hlists⟩

theorem enters_record {i : InstanceId} {x : Instance β} (hx : w.instance? i = some x)
    (name : String) (trigger : Trigger) (args : List Value) :
    Enters w (w.modifyInstance i (·.setBurst name ((x.burst name).record trigger args))) := by
  refine enters_modifyInstance w i fun z hz => ⟨rfl, fun id name? hlists => ?_⟩
  obtain rfl := Option.some.inj (hx.symm.trans hz)
  cases name? with
  | none => exact hlists
  | some other =>
      obtain ⟨burst, hmem, hpending⟩ := hlists
      rcases NameTable.mem_of_mem_insertEntry hmem with heq | hmem
      · obtain ⟨rfl, rfl⟩ := Prod.mk.inj heq
        refine Duties.lists_of_pending ?_
        rw [← (keeps_record x other trigger args).pending other]
        rw [Duties.burst_setBurst, if_pos rfl]
        exact hpending
      · exact ⟨burst, hmem, hpending⟩

end

/-! ### Operations that record sources -/

section
variable {w : World β} {i : InstanceId} {x : Instance β} {y : MainContext β}

theorem Given.edited {v : World β} (h : w.Given) (he : Edited w v) : v.Given := by
  intro c t' ht' s hs
  have hc := he c
  rw [ht'] at hc
  cases ht : w.timetable? c with
  | none =>
      rw [ht] at hc
      cases hc
  | some t =>
      rw [ht] at hc
      cases hc with
      | some hedited => exact hedited.given (h c t ht) s hs

/-- A new source is devoted to its work. -/
theorem devotes_attachNow (hgiven : w.Given) {c : ContextId} (hy : w.context? c = some y)
    (kind : SourceKind) (priority : Priority) {work : SourceWork β} {name? : Option String}
    (hwork : work.entry? = some (i, name?)) :
    (w.setContext c (y.attachNow kind priority work).1).Devotes c ⟨y.nextSource⟩ i name? := by
  have ht := timetable?_setContext w hy (y := (y.attachNow kind priority work).1) (d := c)
  rw [if_pos rfl] at ht
  refine ⟨_, ht, Nat.lt_succ_self _, fun s hs hid => ?_⟩
  rcases mem_attachNow hy ht hs with ⟨t, ht', hmem⟩ | ⟨-, rfl⟩
  · obtain rfl := Option.some.inj (ht'.symm.trans (timetable?_eq hy))
    have hlt := hgiven c _ ht' s hmem
    rw [hid] at hlt
    exact absurd hlt (Nat.lt_irrefl _)
  · exact hwork

theorem enters_scheduleReady (hgiven : w.Given) (i : InstanceId) (typeName : String)
    (hook : ReadyHook β) : Enters w (w.scheduleReady i typeName hook) := by
  refine scheduleReady_induction w i typeName hook (enters_of_eq fun _ => .inl rfl)
    fun x y hx hy => ?_
  intro j d' hd' id name? hlists
  rw [duties?_modifyInstance] at hd'
  split at hd'
  · next hj =>
    subst hj
    rw [show (w.setContext x.context _).instance? j = some x from hx] at hd'
    obtain rfl := Option.some.inj hd'
    cases name? with
    | some name => exact .inl ⟨x.duties, duties?_eq hx, rfl, hlists⟩
    | none =>
      rcases List.mem_append.mp hlists with hold | hnew
      · exact .inl ⟨x.duties, duties?_eq hx, rfl, hold⟩
      · rw [List.mem_singleton.mp hnew]
        exact .inr (devotes_attachNow hgiven hy .idle .standard rfl)
  · exact .inl ⟨d', hd', rfl, hlists⟩

theorem enters_scheduleHooks (hgiven : w.Given) (i : InstanceId) (x : Instance β) :
    Enters w (w.scheduleHooks i x) := by
  have hall := scheduleHooks_induction (P := fun v => v.Given ∧ Enters w v) w i x
    ⟨hgiven, enters_of_eq fun _ => .inl rfl⟩ fun v typeName hook hv => by
      have hedited := edited_scheduleReady v i typeName hook
      exact ⟨hv.1.edited hedited,
        hv.2.trans (enters_scheduleReady hv.1 i typeName hook) hedited.continues⟩
  exact hall.2

theorem enters_restartBurst (hgiven : w.Given) (i : InstanceId) (name : String)
    (debounce : Debounce) (callback : β) :
    Enters w (w.restartBurst i name debounce callback) := by
  refine restartBurst_induction w i name debounce callback (enters_of_eq fun _ => .inl rfl)
    fun x y hx hy => ?_
  have hdetached : (w.detachSources x.context (x.burst name).pending.toList).Given :=
    hgiven.edited (edited_detachSources w _ _)
  intro j d' hd' id name? hlists
  rw [duties?_modifyInstance] at hd'
  split at hd'
  · next hj =>
    subst hj
    have hsame (z : MainContext β) :
        ((w.detachSources x.context (x.burst name).pending.toList).setContext x.context
          z).instance? j = some x := hx
    rw [hsame] at hd'
    obtain rfl := Option.some.inj hd'
    cases name? with
    | none => exact .inl ⟨x.duties, duties?_eq hx, rfl, hlists⟩
    | some other =>
      obtain ⟨burst, hmem, hpending⟩ := hlists
      rcases NameTable.mem_of_mem_insertEntry hmem with heq | hmem
      · obtain ⟨rfl, rfl⟩ := Prod.mk.inj heq
        obtain rfl := Option.some.inj hpending
        exact .inr (devotes_attachNow hdetached hy (.timeout debounce.interval) .standard rfl)
      · exact .inl ⟨x.duties, duties?_eq hx, rfl, burst, hmem, hpending⟩
  · exact .inl ⟨d', hd', rfl, hlists⟩

theorem enters_dispose (w : World β) (i : InstanceId) : Enters w (w.dispose i) := by
  refine dispose_induction w i (enters_of_eq fun _ => .inl rfl) fun x _ _ => ?_
  have hdetach : Enters w (w.detachSources x.context x.deferredSources) :=
    enters_of_eq fun _ => .inl rfl
  refine hdetach.trans (enters_modifyInstance _ i fun z _ => ⟨rfl, fun id name? hlists => ?_⟩)
    (edited_modifyInstance i _).continues
  cases name? with
  | none => cases hlists
  | some name =>
    obtain ⟨burst, hmem, hpending⟩ := hlists
    obtain ⟨entry, -, heq⟩ := List.mem_map.mp hmem
    obtain ⟨-, rfl⟩ := Prod.mk.inj heq
    cases hpending

theorem enters_startWork (w : World β) (c : ContextId) (id : SourceId) (work : SourceWork β) :
    Enters w (w.startWork c id work []).world := by
  refine startWork_induction w c id work [] (enters_of_eq fun _ => .inl rfl) ?_ ?_
  · intro i typeName hook _
    refine enters_modifyInstance w i fun z _ => ⟨rfl, fun other name? hlists => ?_⟩
    cases name? with
    | none => exact List.mem_of_mem_filter hlists
    | some name => exact hlists
  · intro i name trigger callback burst _
    refine enters_modifyInstance w i fun z _ => ⟨rfl, fun other name? hlists => ?_⟩
    cases name? with
    | none => exact hlists
    | some other =>
      obtain ⟨kept, hmem, hkept⟩ := hlists
      rcases NameTable.mem_of_mem_insertEntry hmem with heq | hmem
      · obtain ⟨-, rfl⟩ := Prod.mk.inj heq
        rw [burst.pending_finish] at hkept
        cases hkept
      · exact ⟨kept, hmem, hkept⟩

theorem enters_addInstance (w : World β) (ofClass : Class β) (c : ContextId) :
    Enters w (w.addInstance ofClass c).1 := by
  intro i d' hd' id name? hlists
  rw [duties?_addInstance] at hd'
  rcases Option.or_eq_some_iff.mp hd' with hold | ⟨-, hnew⟩
  · exact .inl ⟨d', hold, rfl, hlists⟩
  · split at hnew
    · obtain rfl := Option.some.inj hnew
      cases name? with
      | none => cases hlists
      | some name =>
          obtain ⟨burst, hmem, -⟩ := hlists
          cases hmem
    · cases hnew

end

end World

/-! ## Every reachable state -/

section
variable {m m' : Machine σ β κ}

theorem Turn.enters (h : Turn m m') (hsound : ∀ c, (m.desk c).Sound) :
    World.Enters m.world m'.world := by
  have hgiven : m.world.Given := fun c t ht => ((hsound c).present t ht).fresh
  have edit {w : World β} (hw : World.Steady w m'.world)
      (hd : ∀ i, w.duties? i = m.world.duties? i) : World.Enters m.world m'.world :=
    World.Enters.steady (World.enters_of_eq fun i => .inl (hd i)) hw
  cases h with
  | still hw hs hc => exact World.enters_of_eq hw.duties
  | opens config hw hs hc => exact edit hw fun _ => rfl
  | ticks c now hm hw hs hc => exact edit hw fun _ => rfl
  | attaches c x kind priority work hx hp hw hs hc =>
      exact edit hw fun _ => rfl
  | detaches c x id hm hx hw hs hc => exact edit hw fun _ => rfl
  | creates ofClass c hw hs hc => exact (World.enters_addInstance _ ofClass c).steady hw
  | disposes i hm hw hs hc => exact (World.enters_dispose _ i).steady hw
  | calls i name args x callback hm hx hd hf hw hs hc => exact World.enters_of_eq hw.duties
  | callsAtOnce i name args x callback debounce hm hx hd hf hr hw hs hc =>
      exact (World.enters_record hx name debounce.trigger args).steady hw
  | callsLater i name args x callback debounce hm hx hd hf hr hw hs hc =>
      refine World.Enters.steady ?_ hw
      refine (World.enters_record hx name debounce.trigger args).trans ?_
        (World.edited_restartBurst _ i name debounce callback).continues
      refine World.enters_restartBurst ?_ i name debounce callback
      exact hgiven
  | startsInterval i name debounce callback hw hs hc =>
      exact (World.enters_restartBurst hgiven i name debounce callback).steady hw
  | constructs f rest i hf hw hs hs' hc => exact World.enters_of_eq hw.duties
  | schedules i x hx hw hs hc => exact (World.enters_scheduleHooks hgiven i x).steady hw
  | collects c x worked hx hw hs hc => exact edit hw fun _ => rfl
  | skips c id ready worked rest hx hw hs hs' hc => exact World.enters_of_eq hw.duties
  | begins c id ready worked rest x y work hx hb hw hs hs' hc =>
      intro i d' hd' other name? hlists
      have hstart := (World.enters_startWork (m.world.setContext c y) c id work).steady hw
      exact hstart i d' hd' other name? hlists
  | ends c id mayStay stays hstay hw hs hc => exact edit hw fun _ => rfl
  | closes c worked hw hs hc => exact World.enters_of_eq hw.duties

/-- In every reachable state, what is on record is accurate. -/
theorem Machine.Reachable.accurate {client : Client σ β κ} (h : Reachable client m) :
    m.world.Accurate := by
  induction h with
  | initial state callback => exact fun _ _ hd => (by cases hd)
  | @step m hm ih =>
      have hturn := turn_step client m
      exact ih.enters (hturn.enters fun c => hm.desk c) fun c t ht =>
        (hturn.desk c).continues (hm.desk c) ht

end

end ObjectSystem
