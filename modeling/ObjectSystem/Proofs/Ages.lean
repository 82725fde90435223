import ObjectSystem.Proofs.Tracking

/-!
# Instances age

An instance stays of its class and in its context, and once it is disposed it stays disposed, as long
as it is there; a new one has a new identity. Every turn has instances age (`Turn.ages`).
-/

namespace ObjectSystem

variable {σ β κ : Type}

/-- What an instance was it still is. -/
structure Duties.Ages (d d' : Duties β) : Prop where
  ofClass : d'.ofClass = d.ofClass
  context : d'.context = d.context
  disposed : d.disposed = true → d'.disposed = true

theorem Duties.Ages.refl (d : Duties β) : Ages d d :=
  ⟨rfl, rfl, id⟩

theorem Duties.Ages.trans {d d' d'' : Duties β} (h : Ages d d') (g : Ages d' d'') : Ages d d'' :=
  ⟨g.ofClass.trans h.ofClass, g.context.trans h.context, fun hd => g.disposed (h.disposed hd)⟩

namespace World

/-- Every instance was there before and has aged, or has an identity that was not given before. -/
structure Ages (w v : World β) : Prop where
  next : w.nextInstance ≤ v.nextInstance
  ages : ∀ i d', v.duties? i = some d' →
    (∃ d, w.duties? i = some d ∧ d.Ages d') ∨ w.nextInstance ≤ i.number

section
variable {u v w : World β}

theorem Ages.refl (w : World β) : Ages w w :=
  ⟨Nat.le_refl _, fun _ d hd => .inl ⟨d, hd, .refl d⟩⟩

theorem Ages.trans (h : Ages u v) (g : Ages v w) : Ages u w := by
  refine ⟨Nat.le_trans h.next g.next, fun i d'' hd'' => ?_⟩
  rcases g.ages i d'' hd'' with ⟨d', hd', hages'⟩ | hge
  · rcases h.ages i d' hd' with ⟨d, hd, hages⟩ | hge
    · exact .inl ⟨d, hd, hages.trans hages'⟩
    · exact .inr hge
  · exact .inr (Nat.le_trans h.next hge)

theorem ages_of_eq (hn : v.nextInstance = w.nextInstance)
    (hd : ∀ i, v.duties? i = w.duties? i) : Ages w v :=
  ⟨Nat.le_of_eq hn.symm, fun i d' hd' => .inl ⟨d', (hd i).symm.trans hd', .refl d'⟩⟩

theorem Steady.ages (h : Steady w v) : Ages w v :=
  ⟨Nat.le_of_eq h.nextInstance.symm, fun _ d' hd' => .inl ⟨d', h.duties_of_some hd', .refl d'⟩⟩

theorem ages_modifyInstance (w : World β) (i : InstanceId) {f : Instance β → Instance β}
    (hf : ∀ x : Instance β, x.duties.Ages (f x).duties) : Ages w (w.modifyInstance i f) := by
  refine ⟨Nat.le_refl _, fun j d' hd' => .inl ?_⟩
  rw [duties?_modifyInstance] at hd'
  split at hd'
  · obtain ⟨x, hx, rfl⟩ := Option.map_eq_some_iff.mp hd'
    exact ⟨x.duties, duties?_eq hx, hf x⟩
  · exact ⟨d', hd', .refl d'⟩

theorem ages_setBurst (w : World β) (i : InstanceId) (name : String) (burst : Burst) :
    Ages w (w.modifyInstance i (·.setBurst name burst)) :=
  ages_modifyInstance w i fun _ => ⟨rfl, rfl, id⟩

theorem ages_addInstance (w : World β) (ofClass : Class β) (c : ContextId) :
    Ages w (w.addInstance ofClass c).1 := by
  have h : Remembers w (w.addInstance ofClass c).1 := remembers_addInstance ofClass c
  refine ⟨h.next, fun i d' hd' => ?_⟩
  rw [duties?_addInstance] at hd'
  rcases Option.or_eq_some_iff.mp hd' with hold | ⟨-, hnew⟩
  · exact .inl ⟨d', hold, .refl _⟩
  · split at hnew
    · next hi => exact .inr (Nat.le_of_eq (hi ▸ rfl))
    · cases hnew

theorem ages_dispose (w : World β) (i : InstanceId) : Ages w (w.dispose i) := by
  refine dispose_induction w i (.refl w) fun x _ _ => ?_
  refine Ages.trans ?_ (ages_modifyInstance _ i fun _ => ⟨rfl, rfl, fun _ => rfl⟩)
  exact ages_of_eq rfl fun _ => rfl

theorem ages_scheduleHooks (w : World β) (i : InstanceId) (x : Instance β) :
    Ages w (w.scheduleHooks i x) := by
  refine scheduleHooks_induction w i x (.refl w) fun v typeName hook hv => hv.trans ?_
  refine scheduleReady_induction v i typeName hook (.refl v) fun y z _ _ => ?_
  refine Ages.trans ?_ (ages_modifyInstance _ i fun _ => ⟨rfl, rfl, id⟩)
  exact ages_of_eq rfl fun _ => rfl

theorem ages_restartBurst (w : World β) (i : InstanceId) (name : String) (debounce : Debounce)
    (callback : β) : Ages w (w.restartBurst i name debounce callback) := by
  refine restartBurst_induction w i name debounce callback (.refl w) fun x y _ _ => ?_
  refine Ages.trans ?_ (ages_setBurst _ i _ _)
  exact ages_of_eq rfl fun _ => rfl

theorem ages_startWork (w : World β) (c : ContextId) (id : SourceId) (work : SourceWork β) :
    Ages w (w.startWork c id work []).world := by
  refine startWork_induction w c id work [] (.refl w) ?_ ?_
  · exact fun i typeName hook _ => ages_modifyInstance w i fun _ => ⟨rfl, rfl, fun h => h⟩
  · exact fun i name trigger callback burst _ => ages_setBurst w i name _

end

end World

/-- Every turn has instances age. -/
theorem Turn.ages {m m' : Machine σ β κ} (h : Turn m m') : World.Ages m.world m'.world := by
  have edit {w : World β} (hw : World.Steady w m'.world)
      (hn : w.nextInstance = m.world.nextInstance)
      (hd : ∀ i, w.duties? i = m.world.duties? i) : World.Ages m.world m'.world :=
    (World.ages_of_eq hn hd).trans hw.ages
  cases h with
  | still hw hs hc => exact hw.ages
  | opens config hw hs hc => exact edit hw rfl fun _ => rfl
  | ticks c now hm hw hs hc => exact edit hw rfl fun _ => rfl
  | attaches c x kind priority work hx hp hw hs hc =>
      exact edit hw rfl fun _ => rfl
  | detaches c x id hm hx hw hs hc => exact edit hw rfl fun _ => rfl
  | creates ofClass c hw hs hc => exact (World.ages_addInstance _ ofClass c).trans hw.ages
  | disposes i hm hw hs hc => exact (World.ages_dispose _ i).trans hw.ages
  | calls i name args x callback hm hx hd hf hw hs hc => exact hw.ages
  | callsAtOnce i name args x callback debounce hm hx hd hf hr hw hs hc =>
      exact (World.ages_setBurst _ i _ _).trans hw.ages
  | callsLater i name args x callback debounce hm hx hd hf hr hw hs hc =>
      exact ((World.ages_setBurst _ i _ _).trans (World.ages_restartBurst _ i _ _ _)).trans hw.ages
  | startsInterval i name debounce callback hw hs hc =>
      exact (World.ages_restartBurst _ i _ _ _).trans hw.ages
  | constructs f rest i hf hw hs hs' hc => exact hw.ages
  | schedules i x hx hw hs hc => exact (World.ages_scheduleHooks _ i x).trans hw.ages
  | collects c x worked hx hw hs hc => exact edit hw rfl fun _ => rfl
  | skips c id ready worked rest hx hw hs hs' hc => exact hw.ages
  | begins c id ready worked rest x y work hx hb hw hs hs' hc =>
      have hset : World.Ages m.world (m.world.setContext c y) :=
        World.ages_of_eq rfl fun _ => rfl
      exact (hset.trans (World.ages_startWork _ c id work)).trans hw.ages
  | ends c id mayStay stays hstay hw hs hc => exact edit hw rfl fun _ => rfl
  | closes c worked hw hs hc => exact hw.ages

/-- Instances age from each state of a run to a later one. -/
theorem Machine.ages_after (client : Client σ β κ) (m : Machine σ β κ) {k n : Nat} (h : k ≤ n) :
    World.Ages (m.after client k).world (m.after client n).world := by
  induction h with
  | refl => exact .refl _
  | step _ ih => exact ih.trans (turn_step client _).ages

namespace Machine

variable {client : Client σ β κ} {m : Machine σ β κ} {i : InstanceId} {j k : Nat}

/-- An instance whose identity was given before was there before, and has aged since. -/
theorem aged_of_given (hjk : j ≤ k) (hgiven : i.number < (m.after client j).world.nextInstance)
    {d' : Duties β} (hd' : (m.after client k).world.duties? i = some d') :
    ∃ d, (m.after client j).world.duties? i = some d ∧ d.Ages d' :=
  ((ages_after client m hjk).ages i d' hd').resolve_right (Nat.not_le_of_lt hgiven)

/-- An instance that is there at two moments of a run has aged in between. -/
theorem Reachable.aged (hreach : Reachable client m) (hjk : j ≤ k) {d d' : Duties β}
    (hd : (m.after client j).world.duties? i = some d)
    (hd' : (m.after client k).world.duties? i = some d') : d.Ages d' := by
  obtain ⟨e, he, haged⟩ := aged_of_given hjk ((hreach.after j).tracked.created i d hd) hd'
  obtain rfl := Option.some.inj (hd.symm.trans he)
  exact haged

end Machine

end ObjectSystem
