import ObjectSystem.Proofs.Estate
import ObjectSystem.Proofs.Move

/-!
# What reclaiming takes away

After every move, the events that no handler is left for are abandoned, and the instances that
nothing keeps are dropped. Whatever the order, this is a chain of two kinds of small changes
(`World.Sheds`, `sheds_reclaim`): an open event is abandoned that no connected handler serves, or an
instance goes that is not kept at that moment. A property of worlds that survives both survives
every reclaiming.
-/

namespace ObjectSystem

variable {σ β κ : Type}

/-! ## Settled events -/

/-- An estate without the handlers of some identities. -/
def Estate.without (d : Estate β) (ids : List HandlerId) : Estate β :=
  { d with handlers := d.handlers.filter (·.id ∉ ids) }

theorem Estate.mem_without {d : Estate β} {ids : List HandlerId} {h : Handler β} :
    h ∈ (d.without ids).handlers ↔ h ∈ d.handlers ∧ h.id ∉ ids := by
  simp [without]

theorem Instance.estate_disconnectAll (ids : List HandlerId) (x : Instance β) :
    (ids.foldl disconnect x).estate = x.estate.without ids := by
  induction ids generalizing x with
  | nil =>
      show x.estate = { x.estate with handlers := x.handlers.filter fun h => h.id ∉ [] }
      rw [List.filter_eq_self.mpr fun h _ => by simp]
      rfl
  | cons id ids ih =>
      have hdisconnect : (x.disconnect id).estate =
          { x.estate with handlers := x.handlers.filter (·.id ≠ id) } := rfl
      rw [List.foldl_cons, ih, hdisconnect]
      simp only [Estate.without, List.filter_filter, List.mem_cons, not_or]
      congr 1
      refine List.filter_congr fun h _ => ?_
      simp [Bool.and_comm]

namespace World

/-- No connected handler settles an event. -/
def Unserved (w : World β) (e : EventId) : Prop :=
  ∀ i d, w.estate? i = some d → ∀ h ∈ d.handlers, h.target.event? ≠ some e

/-- An open event got its outcome, and its handlers are gone. -/
structure Settled (w : World β) (e : EventId) (ev : Event) (o : EventOutcome) (v : World β) :
    Prop where
  found : w.events.find? e = some ev
  wasOpen : ev.isOpen = true
  estate : ∀ i, v.estate? i =
    if i = ev.owner then (w.estate? i).map (·.without ev.handlers) else w.estate? i
  nextInstance : v.nextInstance = w.nextInstance
  events : v.events.entries.length = w.events.entries.length
  event : ∀ d, v.events.find? d = if d = e then some (ev.settle o) else w.events.find? d

section Settle
variable {u v w : World β} {e : EventId} {ev : Event} {o : EventOutcome}

theorem events_wake (w : World β) (waiter : Option Waiter) : (w.wake waiter).events = w.events := by
  unfold wake
  split <;> rfl

theorem settled_settle (hfind : w.events.find? e = some ev) (hopen : ev.isOpen = true)
    (o : EventOutcome) : w.Settled e ev o (w.settle e o) := by
  rw [settle_eq hfind hopen]
  have hwake := spares_wake { w.modifyInstance ev.owner
    (fun x => ev.handlers.foldl Instance.disconnect x) with
      events := w.events.set e (ev.settle o) } ev.waiter
  refine ⟨hfind, hopen, fun i => ?_, hwake.nextInstance, ?_, fun d => ?_⟩
  · rw [hwake.estate]
    exact estate?_modifyInstance w ev.owner i (Instance.estate_disconnectAll ev.handlers)
  · rw [hwake.events]
    exact List.length_map _
  · rw [events_wake, Table.find?_set]
    split
    · next hd =>
        rw [hd, hfind]
        rfl
    · rfl

/-- Settling gives an open event its outcome, or it does nothing. -/
theorem settled_or_same (w : World β) (e : EventId) (o : EventOutcome) :
    (∃ ev, w.Settled e ev o (w.settle e o)) ∨ w.settle e o = w := by
  by_cases hopen : ∃ ev, w.events.find? e = some ev ∧ ev.isOpen = true
  · obtain ⟨ev, hfind, hopen⟩ := hopen
    exact .inl ⟨ev, settled_settle hfind hopen o⟩
  · refine .inr (settle_of_closed (fun ev hfind => ?_) o)
    simpa using fun h => hopen ⟨ev, hfind, h⟩

/-- A settled event leaves every instance a part of its handlers. -/
theorem Settled.estate_of_some (h : w.Settled e ev o v) {i : InstanceId} {d' : Estate β}
    (hd' : v.estate? i = some d') : ∃ d, w.estate? i = some d ∧
      (d' = d ∨ i = ev.owner ∧ d' = d.without ev.handlers) := by
  rw [h.estate] at hd'
  split at hd'
  · next hi =>
      obtain ⟨d, hd, rfl⟩ := Option.map_eq_some_iff.mp hd'
      exact ⟨d, hd, .inr ⟨hi, rfl⟩⟩
  · exact ⟨d', hd', .inl rfl⟩

/-- The handlers on the list of an event that is settled go, and no others. -/
theorem Settled.mem_handlers (h : w.Settled e ev o v) {i : InstanceId} {d' : Estate β}
    (hd' : v.estate? i = some d') {g : Handler β} (hg : g ∈ d'.handlers) :
    ∃ d, w.estate? i = some d ∧ g ∈ d.handlers ∧ (i = ev.owner → g.id ∉ ev.handlers) := by
  rw [h.estate] at hd'
  split at hd'
  · obtain ⟨d, hd, rfl⟩ := Option.map_eq_some_iff.mp hd'
    obtain ⟨hmem, hnot⟩ := Estate.mem_without.mp hg
    exact ⟨d, hd, hmem, fun _ => hnot⟩
  · next hi => exact ⟨d', hd', hg, fun howner => absurd howner hi⟩

theorem Unserved.settled {f : EventId} (h : w.Unserved f) (hs : w.Settled e ev o v) :
    v.Unserved f := by
  intro i d' hd' g hg
  obtain ⟨d, hd, hmem, -⟩ := hs.mem_handlers hd' hg
  exact h i d hd g hmem

end Settle

/-! ## Chains of small changes -/

/-- What reclaiming does, given the events that operations in progress could still settle. -/
inductive Sheds (events : List EventId) (u : World β) : World β → Prop
  | refl : Sheds events u u
  /-- An event is abandoned. -/
  | abandons {v w : World β} (h : Sheds events u v) (e : EventId) (ev : Event)
      (he : e ∉ events) (hnone : v.Unserved e)
      (hs : v.Settled e ev (.error .abandoned) w) : Sheds events u w
  /-- An instance is dropped that the handles at hand do not keep. -/
  | drops {v : World β} (h : Sheds events u v) (handles : List Handle) (i : InstanceId)
      (hi : i ∉ v.keptInstances handles) : Sheds events u (v.dropInstance i)

section Sheds
variable {u v w : World β} {handles : List Handle} {events : List EventId}

theorem Sheds.trans (h : Sheds events u v) (g : Sheds events v w) :
    Sheds events u w := by
  induction g with
  | refl => exact h
  | abandons _ e ev he hnone hs ih => exact .abandons ih e ev he hnone hs
  | drops _ handles i hi ih => exact .drops ih handles i hi

theorem instance_mem_values {i : InstanceId} {x : Instance β} (hx : w.instance? i = some x) :
    x ∈ w.instances.values := by
  obtain ⟨before, after, hentries, -⟩ := List.lookup_eq_some_iff.mp hx
  rw [Table.values, hentries]
  simp

/-- An instance is kept by a live instance that has a handle on it. -/
theorem kept_of_instance {i j : InstanceId} {x : Instance β} (hx : w.instance? j = some x)
    (h : .object i ∈ x.handles) : i ∈ w.keptInstances handles := by
  refine mem_keptInstances.mpr ⟨.object i, ?_, by simp [targets, directTargets]⟩
  exact List.mem_append_right _ (List.mem_flatMap.mpr ⟨x, instance_mem_values hx, h⟩)

theorem instance?_dropInstance (i j : InstanceId) :
    (w.dropInstance i).instance? j = if j = i then none else w.instance? j :=
  Table.find?_erase _ _ _

theorem estate?_dropInstance (i j : InstanceId) :
    (w.dropInstance i).estate? j = if j = i then none else w.estate? j := by
  unfold estate?
  rw [instance?_dropInstance]
  split <;> rfl

/-- An event that no connected handler serves stays so if it is abandoned one by one. -/
theorem sheds_foldl_settle {lost : List EventId}
    (hlost : ∀ e ∈ lost, e ∉ events ∧ w.Unserved e) :
    Sheds events w (lost.foldl (fun w e => w.settle e (.error .abandoned)) w) := by
  induction lost generalizing w with
  | nil => exact .refl
  | cons e lost ih =>
      obtain ⟨⟨he, hnone⟩, hrest⟩ := List.forall_mem_cons.mp hlost
      rw [List.foldl_cons]
      rcases settled_or_same w e (.error .abandoned) with ⟨ev, hsettled⟩ | hsame
      · refine (Sheds.abandons .refl e ev he hnone hsettled).trans (ih fun f hf => ?_)
        exact ⟨(hrest f hf).1, (hrest f hf).2.settled hsettled⟩
      · rw [hsame]
        exact ih hrest

theorem sheds_abandonEvents {others : List EventId} (hsub : ∀ e ∈ events, e ∈ others) :
    Sheds events w (w.abandonEvents others) := by
  refine sheds_foldl_settle fun e he => ?_
  have hnot := (List.mem_filter.mp he).2
  simp only [List.mem_append, not_or, decide_eq_true_eq] at hnot
  refine ⟨fun hmem => hnot.2 (hsub e hmem), fun i d hd h hh hevent => hnot.1 ?_⟩
  obtain ⟨x, hx, rfl⟩ := Option.map_eq_some_iff.mp hd
  refine List.mem_flatMap.mpr ⟨x, instance_mem_values hx, ?_⟩
  exact List.mem_filterMap.mpr ⟨h, hh, hevent⟩

end Sheds

end World

theorem Machine.sheds_reclaimOnce (client : Client σ β κ) (before m : Machine σ β κ) :
    World.Sheds (m.stack.flatMap layerEvents) m.world (reclaimOnce client before m).world := by
  refine reclaimOnce_induction client before m
    (P := World.Sheds (m.stack.flatMap layerEvents) m.world) ?_ ?_ .refl
  · exact fun v i hi h => h.trans (.drops .refl (m.handles client) i hi)
  · exact fun v others hsub h => h.trans (World.sheds_abandonEvents hsub)

/-- Reclaiming sheds. -/
theorem Machine.sheds_reclaim (client : Client σ β κ) (before m : Machine σ β κ) :
    World.Sheds (m.stack.flatMap layerEvents) m.world (reclaim client before m).world := by
  refine (reclaim_keeps client before m (P := fun m' => m'.stack = m.stack ∧
    World.Sheds (m.stack.flatMap layerEvents) m.world m'.world) ⟨rfl, .refl⟩ ?_).2
  rintro before m' ⟨hs, h⟩
  refine ⟨(stack_reclaimOnce client before m').trans hs, h.trans ?_⟩
  rw [← hs]
  exact sheds_reclaimOnce client before m'

theorem Machine.sheds_step (client : Client σ β κ) (m : Machine σ β κ) :
    World.Sheds ((m.advance client).stack.flatMap layerEvents) (m.advance client).world
      (m.step client).world :=
  sheds_reclaim client m _

end ObjectSystem
