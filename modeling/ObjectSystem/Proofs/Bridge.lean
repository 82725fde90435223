import ObjectSystem.Proofs.Deferral
import ObjectSystem.Proofs.Emissions

/-!
# Events and the handlers that settle them

Two records say which handlers settle an event: the handlers themselves, and the list in the event.
In every state of a run they agree (`World.Bridged`, `Reachable.bridged`): a connected handler that
settles an event is on the list of that event, which is open; and of the connected handlers, those
on the list of an open event settle it.

A step changes both records together in three ways only (`World.Plain`, `World.Awaits`,
`World.Settled`): it leaves them alone but for handlers that go, an event is awaited, or an event is
settled.
-/

namespace ObjectSystem

variable {σ β κ : Type}

namespace World

/-! ## Changes -/

/-- A change that leaves events alone, but for outcomes that are taken, and connects no handler that
settles one. -/
structure Plain (w v : World β) : Prop where
  nextInstance : w.nextInstance ≤ v.nextInstance
  events : v.events.entries.length = w.events.entries.length
  event : ∀ e, Option.Rel Event.Aged (w.events.find? e) (v.events.find? e)
  estate : ∀ i d', v.estate? i = some d' →
    (∃ d, w.estate? i = some d ∧ d.nextHandler ≤ d'.nextHandler ∧
      ∀ h ∈ d'.handlers, h ∈ d.handlers ∨
        h.target.event? = none ∧ d.nextHandler ≤ h.id.number) ∨
    (∀ h ∈ d'.handlers, h.target.event? = none) ∧ w.nextInstance ≤ i.number

/-- An event is awaited: it is new, and its handlers are connected behind all others. -/
structure Awaits (w : World β) (i : InstanceId) (d : Estate β) (reject : Option String)
    (e : EventId) (hs : List (Handler β)) (v : World β) : Prop where
  identity : e.number = w.events.entries.length
  owner : w.estate? i = some d
  targets : hs.map (·.target) = .resolves e :: reject.toList.map (.rejects e)
  ids : ∀ h ∈ hs, d.nextHandler ≤ h.id.number ∧ h.id.number < d.nextHandler + hs.length
  estate : ∀ j, v.estate? j = if j = i then
    some { d with handlers := d.handlers ++ hs, nextHandler := d.nextHandler + hs.length }
    else w.estate? j
  nextInstance : v.nextInstance = w.nextInstance
  events : v.events.entries.length = w.events.entries.length + 1
  event : ∀ f, v.events.find? f =
    if f = e then some { owner := i, handlers := hs.map (·.id) } else w.events.find? f

/-- The two records agree. -/
structure Bridged (w : World β) : Prop where
  /-- The identities of events count them. -/
  counted : ∀ e ev, w.events.find? e = some ev → e.number < w.events.entries.length
  /-- A connected handler that settles an event is on the list of that event. -/
  served : ∀ i d, w.estate? i = some d → ∀ h ∈ d.handlers, ∀ e, h.target.event? = some e →
    ∃ ev, w.events.find? e = some ev ∧ ev.isOpen = true ∧ ev.owner = i ∧ h.id ∈ ev.handlers
  /-- A connected handler on the list of an open event settles that event. -/
  serving : ∀ e ev, w.events.find? e = some ev → ev.isOpen = true →
    ∀ d, w.estate? ev.owner = some d → ∀ h ∈ d.handlers, h.id ∈ ev.handlers →
      h.target.event? = some e
  /-- The instance and the handlers of an open event are no later ones. -/
  given : ∀ e ev, w.events.find? e = some ev → ev.isOpen = true →
    ev.owner.number < w.nextInstance ∧
      ∀ d, w.estate? ev.owner = some d → ∀ id ∈ ev.handlers, id.number < d.nextHandler
  unsettled : ∀ e ev, w.events.find? e = some ev → ev.isOpen = true → ev.outcome = none

section
variable {u v w : World β} {i : InstanceId} {d : Estate β} {reject : Option String} {e : EventId}
  {hs : List (Handler β)}

/-! ### Plain changes -/

theorem Plain.find_after (h : Plain w v) {ev : Event} (hev : w.events.find? e = some ev) :
    ∃ ev', v.events.find? e = some ev' ∧ ev.Aged ev' := by
  have hrel := h.event e
  rw [hev] at hrel
  generalize v.events.find? e = found at hrel
  cases hrel with
  | some hage => exact ⟨_, rfl, hage⟩

theorem Plain.find_before (h : Plain w v) {ev' : Event} (hev : v.events.find? e = some ev') :
    ∃ ev, w.events.find? e = some ev ∧ ev.Aged ev' := by
  have hrel := h.event e
  rw [hev] at hrel
  generalize w.events.find? e = found at hrel
  cases hrel with
  | some hage => exact ⟨_, rfl, hage⟩

/-- A handler that settles an event was connected before a plain change. -/
theorem Plain.mem_handlers (h : Plain w v) {d' : Estate β} (hd' : v.estate? i = some d')
    {g : Handler β} (hg : g ∈ d'.handlers) (htarget : g.target.event? = some e) :
    ∃ d, w.estate? i = some d ∧ g ∈ d.handlers := by
  rcases h.estate i d' hd' with ⟨d, hd, -, hsub⟩ | ⟨hnone, -⟩
  · rcases hsub g hg with hold | ⟨hnone, -⟩
    · exact ⟨d, hd, hold⟩
    · cases hnone.symm.trans htarget
  · cases (hnone g hg).symm.trans htarget

/-- A change after which handlers are some of those before it. -/
theorem Plain.of_subset (hn : v.nextInstance = w.nextInstance)
    (hevents : v.events.entries.length = w.events.entries.length)
    (hevent : ∀ e, Option.Rel Event.Aged (w.events.find? e) (v.events.find? e))
    (h : ∀ i d', v.estate? i = some d' → ∃ d, w.estate? i = some d ∧
      d'.nextHandler = d.nextHandler ∧ ∀ g ∈ d'.handlers, g ∈ d.handlers) : Plain w v where
  nextInstance := Nat.le_of_eq hn.symm
  events := hevents
  event := hevent
  estate i d' hd' := by
    obtain ⟨d, hd, hnext, hsub⟩ := h i d' hd'
    exact .inl ⟨d, hd, Nat.le_of_eq hnext.symm, fun g hg => .inl (hsub g hg)⟩

theorem Plain.trans (h : Plain u v) (g : Plain v w) : Plain u w where
  nextInstance := Nat.le_trans h.nextInstance g.nextInstance
  events := g.events.trans h.events
  event e := rel_aged_trans (h.event e) (g.event e)
  estate i d'' hd'' := by
    have hle := h.nextInstance
    rcases g.estate i d'' hd'' with ⟨d', hd', hnext', hsub'⟩ | ⟨hnone, hge⟩
    · rcases h.estate i d' hd' with ⟨d, hd, hnext, hsub⟩ | ⟨hnone, hge⟩
      · refine .inl ⟨d, hd, Nat.le_trans hnext hnext', fun k hk => ?_⟩
        rcases hsub' k hk with hold | ⟨hplain, hnew⟩
        · exact hsub k hold
        · exact .inr ⟨hplain, Nat.le_trans hnext hnew⟩
      · refine .inr ⟨fun k hk => ?_, hge⟩
        rcases hsub' k hk with hold | ⟨hplain, -⟩
        · exact hnone k hold
        · exact hplain
    · exact .inr ⟨hnone, Nat.le_trans hle hge⟩

theorem Spares.plain (h : Spares w v) : Plain w v := by
  refine .of_subset h.nextInstance h.events h.event fun i d hd => ⟨d, ?_, rfl, fun _ hg => hg⟩
  rw [← h.estate]
  exact hd

theorem plain_modifyInstance (w : World β) (i : InstanceId) {f : Instance β → Instance β}
    {g : Estate β → Estate β} (hf : ∀ x, (f x).estate = g x.estate)
    (hg : ∀ d : Estate β,
      (g d).nextHandler = d.nextHandler ∧ ∀ h ∈ (g d).handlers, h ∈ d.handlers) :
    Plain w (w.modifyInstance i f) := by
  refine .of_subset rfl rfl (fun _ => rel_aged_refl _) fun j d' hd' => ?_
  rw [estate?_modifyInstance w i j hf] at hd'
  split at hd'
  · obtain ⟨d, hd, rfl⟩ := Option.map_eq_some_iff.mp hd'
    exact ⟨d, hd, hg d⟩
  · exact ⟨d', hd', rfl, fun _ hh => hh⟩

/-- A handler comes that settles no event. -/
theorem plain_connect {x y : Instance β} {signal : String} {target : HandlerTarget β}
    {id : HandlerId} (hx : w.instance? i = some x) (hc : x.connect signal target = .ok (y, id))
    (htarget : target.event? = none) : Plain w (w.modifyInstance i fun _ => y) where
  nextInstance := Nat.le_refl _
  events := rfl
  event _ := rel_aged_refl _
  estate j d' hd' := by
    refine .inl ?_
    rw [estate?_replaceInstance hx] at hd'
    split at hd'
    · next hj =>
        obtain ⟨h, -, rfl, hid, hnumber, hy⟩ := Instance.estate_of_connect hc
        cases hd'
        rw [hj, hy]
        refine ⟨x.estate, estate?_eq hx, Nat.le_succ _, fun g hg => ?_⟩
        rcases List.mem_append.mp hg with hold | hnew
        · exact .inl hold
        · obtain rfl := List.mem_singleton.mp hnew
          rw [hid, hnumber]
          exact .inr ⟨htarget, Nat.le_refl _⟩
    · exact ⟨d', hd', Nat.le_refl _, fun g hg => .inl hg⟩

/-- A new instance has no handlers. -/
theorem plain_addInstance (w : World β) (ofClass : Class β) (c : ContextId) :
    Plain w (w.addInstance ofClass c).1 where
  nextInstance := Nat.le_succ _
  events := rfl
  event _ := rel_aged_refl _
  estate j d' hd' := by
    rw [estate?_addInstance] at hd'
    rcases Option.or_eq_some_iff.mp hd' with hold | ⟨-, hnew⟩
    · exact .inl ⟨d', hold, Nat.le_refl _, fun g hg => .inl hg⟩
    · split at hnew
      · next hj =>
          cases hnew
          rw [hj]
          exact .inr ⟨fun g hg => (by cases hg), Nat.le_refl _⟩
      · cases hnew

theorem plain_dispose (w : World β) (i : InstanceId) : Plain w (w.dispose i) := by
  refine dispose_induction w i (Spares.refl w).plain fun x _ _ => ?_
  have hdetach := (spares_detachSources w x.context x.deferredSources).plain
  exact hdetach.trans (plain_modifyInstance (g := fun d => { d with handlers := [] }) _ i
    (fun x => rfl) fun d => ⟨rfl, fun h hh => (by cases hh)⟩)

theorem plain_dropInstance (w : World β) (i : InstanceId) : Plain w (w.dropInstance i) := by
  refine .of_subset rfl rfl (fun _ => rel_aged_refl _) fun j d hd => ?_
  rw [estate?_dropInstance] at hd
  split at hd
  · cases hd
  · exact ⟨d, hd, rfl, fun _ hh => hh⟩

theorem Bridged.plain (hw : w.Bridged) (h : Plain w v) : v.Bridged where
  counted f ev' hev' := by
    obtain ⟨ev, hev, -⟩ := h.find_before hev'
    rw [h.events]
    exact hw.counted f ev hev
  served j d' hd' g hg f htarget := by
    obtain ⟨d, hd, hold⟩ := h.mem_handlers hd' hg htarget
    obtain ⟨ev, hev, hopen, howner, hid⟩ := hw.served j d hd g hold f htarget
    obtain ⟨ev', hev', hage⟩ := h.find_after hev
    exact ⟨ev', hev', hage.isOpen.trans hopen, hage.owner.trans howner, hage.handlers ▸ hid⟩
  serving f ev' hev' hopen d' hd' g hg hid := by
    obtain ⟨ev, hev, hage⟩ := h.find_before hev'
    rw [hage.owner] at hd'
    rw [hage.isOpen] at hopen
    rw [hage.handlers] at hid
    obtain ⟨hlt, hgiven⟩ := hw.given f ev hev hopen
    rcases h.estate ev.owner d' hd' with ⟨d, hd, -, hsub⟩ | ⟨-, hge⟩
    · rcases hsub g hg with hold | ⟨-, hnew⟩
      · exact hw.serving f ev hev hopen d hd g hold hid
      · have := hgiven d hd g.id hid
        omega
    · omega
  given f ev' hev' hopen := by
    obtain ⟨ev, hev, hage⟩ := h.find_before hev'
    rw [hage.isOpen] at hopen
    rw [hage.owner, hage.handlers]
    obtain ⟨hlt, hgiven⟩ := hw.given f ev hev hopen
    refine ⟨Nat.lt_of_lt_of_le hlt h.nextInstance, fun d' hd' id hid => ?_⟩
    rcases h.estate ev.owner d' hd' with ⟨d, hd, hle, -⟩ | ⟨-, hge⟩
    · exact Nat.lt_of_lt_of_le (hgiven d hd id hid) hle
    · omega
  unsettled f ev' hev' hopen := by
    obtain ⟨ev, hev, hage⟩ := h.find_before hev'
    have hnone := hw.unsettled f ev hev (hage.isOpen ▸ hopen)
    rcases hage.outcome with hsame | hnone'
    · exact hsame.trans hnone
    · exact hnone'

/-! ### Settled events -/

theorem isOpen_settle {ev : Event} (hopen : ev.isOpen = true) (o : EventOutcome) :
    ev.settle o = { ev with isOpen := false, handlers := [], outcome := some o } := by
  unfold Event.settle
  rw [if_pos hopen]

/-- What is open after an event is settled was so before, and is another one. -/
theorem Settled.find_before {ev ev' : Event} {o : EventOutcome} {f : EventId}
    (h : w.Settled e ev o v) (hev' : v.events.find? f = some ev') (hopen : ev'.isOpen = true) :
    f ≠ e ∧ w.events.find? f = some ev' := by
  rw [h.event] at hev'
  split at hev'
  · cases hev'
    rw [isOpen_settle h.wasOpen] at hopen
    cases hopen
  · next hne => exact ⟨hne, hev'⟩

theorem Bridged.settled {ev : Event} {o : EventOutcome} (hw : w.Bridged)
    (h : w.Settled e ev o v) : v.Bridged where
  counted f ev' hev' := by
    rw [h.events]
    rw [h.event] at hev'
    split at hev'
    · next hf =>
        rw [hf]
        exact hw.counted e ev h.found
    · exact hw.counted f ev' hev'
  served j d' hd' g hg f htarget := by
    obtain ⟨d, hd, hmem, hnot⟩ := h.mem_handlers hd' hg
    obtain ⟨ev', hev', hopen, howner, hid⟩ := hw.served j d hd g hmem f htarget
    have hne : f ≠ e := by
      rintro rfl
      cases hev'.symm.trans h.found
      exact hnot howner.symm hid
    refine ⟨ev', ?_, hopen, howner, hid⟩
    rw [h.event, if_neg hne]
    exact hev'
  serving f ev' hev' hopen d' hd' g hg hid := by
    obtain ⟨-, hev⟩ := h.find_before hev' hopen
    obtain ⟨d, hd, hmem, -⟩ := h.mem_handlers hd' hg
    exact hw.serving f ev' hev hopen d hd g hmem hid
  given f ev' hev' hopen := by
    obtain ⟨-, hev⟩ := h.find_before hev' hopen
    obtain ⟨hlt, hgiven⟩ := hw.given f ev' hev hopen
    refine ⟨h.nextInstance ▸ hlt, fun d' hd' id hid => ?_⟩
    obtain ⟨d, hd, rfl | ⟨-, rfl⟩⟩ := h.estate_of_some hd'
    · exact hgiven d' hd id hid
    · exact hgiven d hd id hid
  unsettled f ev' hev' hopen := hw.unsettled f ev' (h.find_before hev' hopen).2 hopen

/-! ### Awaited events -/

theorem Awaits.event?_of_mem (h : Awaits w i d reject e hs v) {g : Handler β} (hg : g ∈ hs) :
    g.target.event? = some e := by
  have hmem : g.target ∈ HandlerTarget.resolves e :: reject.toList.map (.rejects e) :=
    h.targets ▸ List.mem_map_of_mem hg
  rcases List.mem_cons.mp hmem with htarget | htarget
  · rw [htarget]
    rfl
  · obtain ⟨signal, -, htarget⟩ := List.mem_map.mp htarget
    rw [← htarget]
    rfl

theorem Awaits.not_found (hw : w.Bridged) (h : Awaits w i d reject e hs v) :
    w.events.find? e = none := by
  cases hfind : w.events.find? e with
  | none => rfl
  | some ev =>
      have := hw.counted e ev hfind
      have := h.identity
      omega

theorem Awaits.find_before (h : Awaits w i d reject e hs v) {f : EventId} {ev : Event}
    (hev : v.events.find? f = some ev) :
    f = e ∧ ev = { owner := i, handlers := hs.map (·.id) } ∨
      f ≠ e ∧ w.events.find? f = some ev := by
  rw [h.event] at hev
  split at hev
  · next hf =>
      cases hev
      exact .inl ⟨hf, rfl⟩
  · next hf => exact .inr ⟨hf, hev⟩

/-- The handlers of an event that is awaited are new, and no others. -/
theorem Awaits.mem_handlers (h : Awaits w i d reject e hs v) {j : InstanceId} {d' : Estate β}
    (hd' : v.estate? j = some d') {g : Handler β} (hg : g ∈ d'.handlers) :
    (∃ d₀, w.estate? j = some d₀ ∧ g ∈ d₀.handlers) ∨ j = i ∧ g ∈ hs := by
  rw [h.estate] at hd'
  split at hd'
  · next hj =>
      cases hd'
      rcases List.mem_append.mp hg with hold | hnew
      · exact .inl ⟨d, hj ▸ h.owner, hold⟩
      · exact .inr ⟨hj, hnew⟩
  · exact .inl ⟨d', hd', hg⟩

theorem Bridged.awaits (hw : w.Bridged) (hordered : w.Ordered)
    (h : Awaits w i d reject e hs v) : v.Bridged where
  counted f ev hev := by
    rw [h.events]
    rcases h.find_before hev with ⟨rfl, -⟩ | ⟨-, hold⟩
    · have := h.identity
      omega
    · exact Nat.lt_succ_of_lt (hw.counted f ev hold)
  served j d' hd' g hg f htarget := by
    rcases h.mem_handlers hd' hg with ⟨d₀, hd₀, hold⟩ | ⟨rfl, hnew⟩
    · obtain ⟨ev, hev, hopen, howner, hid⟩ := hw.served j d₀ hd₀ g hold f htarget
      refine ⟨ev, ?_, hopen, howner, hid⟩
      rw [h.event, if_neg]
      · exact hev
      · rintro rfl
        cases (h.not_found hw).symm.trans hev
    · cases (h.event?_of_mem hnew).symm.trans htarget
      refine ⟨{ owner := j, handlers := hs.map (·.id) }, ?_, rfl, rfl, List.mem_map_of_mem hnew⟩
      rw [h.event, if_pos rfl]
  serving f ev hev hopen d' hd' g hg hid := by
    rcases h.find_before hev with ⟨rfl, rfl⟩ | ⟨hne, hold⟩
    · rcases h.mem_handlers hd' hg with ⟨d₀, hd₀, hbefore⟩ | ⟨-, hnew⟩
      · -- a handler that was connected before is none of the new ones
        cases h.owner.symm.trans hd₀
        obtain ⟨k, hk, hsame⟩ := List.mem_map.mp hid
        have hlt := (hordered i d h.owner).2.given g hbefore
        have hge := (h.ids k hk).1
        rw [hsame] at hge
        omega
      · exact h.event?_of_mem hnew
    · rcases h.mem_handlers hd' hg with ⟨d₀, hd₀, hbefore⟩ | ⟨howner, hnew⟩
      · exact hw.serving f ev hold hopen d₀ hd₀ g hbefore hid
      · -- a new handler is on no list that was there before
        have hd := h.owner
        rw [← howner] at hd
        have hlt := (hw.given f ev hold hopen).2 d hd g.id hid
        have hge := (h.ids g hnew).1
        omega
  given f ev hev hopen := by
    rw [h.nextInstance]
    rcases h.find_before hev with ⟨rfl, rfl⟩ | ⟨hne, hold⟩
    · refine ⟨(hordered i d h.owner).1, fun d' hd' id hid => ?_⟩
      rw [h.estate, if_pos rfl] at hd'
      cases hd'
      obtain ⟨k, hk, rfl⟩ := List.mem_map.mp hid
      exact (h.ids k hk).2
    · obtain ⟨hlt, hgiven⟩ := hw.given f ev hold hopen
      refine ⟨hlt, fun d' hd' id hid => ?_⟩
      rw [h.estate] at hd'
      split at hd'
      · next howner =>
          cases hd'
          have hd := h.owner
          rw [← howner] at hd
          exact Nat.lt_add_right _ (hgiven d hd id hid)
      · exact hgiven d' hd' id hid
  unsettled f ev hev hopen := by
    rcases h.find_before hev with ⟨-, rfl⟩ | ⟨-, hold⟩
    · rfl
    · exact hw.unsettled f ev hold hopen

/-- The handlers that an awaited event connects, and what they leave of the instance. -/
theorem handlers_of_connectEvent {x y : Instance β} {resolve : String} {ids : List HandlerId}
    (hc : connectEvent x e resolve reject = .ok (y, ids)) :
    ∃ hs : List (Handler β),
      hs.map Handler.address = (resolve :: reject.toList).map Instance.addressOf ∧
      hs.map (·.target) = .resolves e :: reject.toList.map (.rejects e) ∧
      hs.map (·.id) = ids ∧
      (∀ h ∈ hs, x.nextHandler ≤ h.id.number ∧ h.id.number < x.nextHandler + hs.length) ∧
      y.estate = { x.estate with
        handlers := x.handlers ++ hs, nextHandler := x.nextHandler + hs.length } := by
  obtain ⟨z, first, hfirst, ⟨rfl, rfl, rfl⟩ | ⟨signal, second, rfl, hsecond, rfl⟩⟩ :=
    connects_of_connectEvent hc
  · obtain ⟨h, haddress, htarget, hid, hnumber, hy⟩ := Instance.estate_of_connect hfirst
    refine ⟨[h], by simp [haddress], by simp [htarget], by simp [hid], fun g hg => ?_, hy⟩
    obtain rfl := List.mem_singleton.mp hg
    rw [hid, hnumber]
    exact ⟨Nat.le_refl _, Nat.lt_succ_self _⟩
  · obtain ⟨h, haddress, htarget, hid, hnumber, hz⟩ := Instance.estate_of_connect hfirst
    obtain ⟨g, haddress', htarget', hid', hnumber', hy⟩ := Instance.estate_of_connect hsecond
    have hnext : z.nextHandler = x.nextHandler + 1 := congrArg Estate.nextHandler hz
    have hhandlers : z.handlers = x.handlers ++ [h] := congrArg Estate.handlers hz
    refine ⟨[h, g], by simp [haddress, haddress'], by simp [htarget, htarget'],
      by simp [hid, hid'], fun k hk => ?_, ?_⟩
    · simp only [List.mem_cons, List.not_mem_nil, or_false] at hk
      simp only [List.length_cons, List.length_nil]
      rcases hk with rfl | rfl
      · rw [hid, hnumber]
        omega
      · rw [hid', hnumber', hnext]
        omega
    · rw [hy, hz, hhandlers, hnext]
      simp

/-- Connecting the handlers of a new event and noting them in it is awaiting it. -/
theorem awaits_of_connectEvent (hw : w.Bridged) {x y : Instance β} {resolve : String}
    {ids : List HandlerId} (hx : w.instance? i = some x)
    (hc : connectEvent x ⟨w.events.entries.length⟩ resolve reject = .ok (y, ids)) :
    ∃ hs, hs.map Handler.address = (resolve :: reject.toList).map Instance.addressOf ∧
      w.Awaits i x.estate reject ⟨w.events.entries.length⟩ hs { w.modifyInstance i (fun _ => y) with
        events := (w.events.add ⟨w.events.entries.length⟩ { owner := i, handlers := [] }).set
          ⟨w.events.entries.length⟩ { owner := i, handlers := ids } } := by
  obtain ⟨hs, haddress, htargets, rfl, hids, hy⟩ := handlers_of_connectEvent hc
  refine ⟨hs, haddress, ⟨rfl, estate?_eq hx, htargets, hids, fun j => ?_, rfl, ?_, fun f => ?_⟩⟩
  · exact (estate?_replaceInstance hx y j).trans (by rw [hy]; rfl)
  · show ((w.events.add _ _).set _ _).entries.length = _
    simp [Table.set, Table.add]
  · show ((w.events.add _ _).set _ _).find? f = _
    have hnew : w.events.find? ⟨w.events.entries.length⟩ = none := by
      cases hfind : w.events.find? ⟨w.events.entries.length⟩ with
      | none => rfl
      | some ev => exact absurd (hw.counted _ ev hfind) (Nat.lt_irrefl _)
    rw [Table.find?_set, Table.find?_add]
    split
    · next hf =>
        rw [hf, hnew]
        rfl
    · rw [Option.or_none]

end

end World

/-! ## Runs -/

open World (Plain Awaits Bridged)

/-- What a move does to events and the handlers that settle them. -/
inductive Bridging (m m' : Machine σ β κ) : Prop
  | plain (h : Plain m.world m'.world)
  | awaits (i : InstanceId) (d : Estate β) (reject : Option String) (e : EventId)
      (hs : List (Handler β)) (h : m.world.Awaits i d reject e hs m'.world)
  /-- A handler is called that settles an event. -/
  | settles (now now' : Emission β) (stack : List (Layer β κ)) (reply : Reply β) (h : Handler β)
      (e : EventId) (o : EventOutcome) (hm : m.control = .deliver reply)
      (hs : m.stack = .operation (.emission now) :: stack)
      (hs' : m'.stack = .operation (.emission now') :: stack)
      (hremaining : now.remaining = h :: now'.remaining)
      (hconnected : m.world.isConnected now.owner h.id = true)
      (hout : h.target.outcome? now.args = some (e, o)) (hw : m'.world = m.world.settle e o)

theorem Deal.bridging {m m' : Machine σ β κ} (h : Deal m m') (hb : m.world.Bridged) :
    Bridging m m' := by
  have hsame (hw : m'.world = m.world) : Plain m.world m'.world := by
    rw [hw]
    exact (World.Spares.refl _).plain
  cases h with
  | spares hspares hs hc => exact .plain hspares.plain
  | creates c hm hspares hs hc =>
      exact .plain ((World.plain_addInstance _ _ _).trans hspares.plain)
  | stores i x name value spec notify equality effect hx hwrite hv hs hc =>
      refine .plain (hv ▸ ?_)
      exact World.plain_modifyInstance (g := fun d => { d with
        stored := d.stored.insert spec.name value }) _ i (fun x => rfl) fun d => ⟨rfl, fun _ h => h⟩
  | emits i signal detail args accumulator hv hs hc => exact .plain (hsame hv)
  | connects i x y signal target id hx hconnect htarget hv hs hc =>
      exact .plain (hv ▸ World.plain_connect hx hconnect htarget)
  | awaits i x y resolve reject ids hx hconnect hv hs hc =>
      obtain ⟨hs, -, hawaits⟩ := World.awaits_of_connectEvent hb hx hconnect
      exact .awaits i x.estate reject _ hs (hv ▸ hawaits)
  | disconnects i id hv hs hc =>
      refine .plain (hv ▸ ?_)
      exact World.plain_modifyInstance (g := fun d => { d with
        handlers := d.handlers.filter (·.id ≠ id) }) _ i (fun x => rfl) fun d =>
          ⟨rfl, fun _ h => (List.mem_filter.mp h).1⟩
  | disposes i hv hs hc =>
      exact .plain (hv ▸ World.plain_dispose _ i)
  | ends e hv hs hc => exact .plain (hsame hv)
  | turns e e' es handler hs hs' howner hremaining hv => exact .plain (hsame hv)
  | settles e e' stack reply handler event o hm hs hs' howner hremaining hconnected hout hv hc =>
      exact .settles e e' stack reply handler event o hm hs hs' hremaining hconnected hout hv

section
variable {v w : World β} {events : List EventId}

theorem World.Bridged.settle (hw : w.Bridged) (e : EventId) (o : EventOutcome) :
    (w.settle e o).Bridged := by
  rcases World.settled_or_same w e o with ⟨ev, hsettled⟩ | hsame
  · exact hw.settled hsettled
  · rw [hsame]
    exact hw

theorem World.Bridged.sheds (hw : w.Bridged) (h : World.Sheds events w v) : v.Bridged := by
  induction h with
  | refl => exact hw
  | abandons _ e ev he hnone hsettled ih => exact ih.settled hsettled
  | drops _ _ i hi ih => exact ih.plain (World.plain_dropInstance _ i)

/-- Reclaiming takes no handler from an instance that lives on. -/
theorem World.Bridged.handlers_of_sheds (hw : w.Bridged) (h : World.Sheds events w v)
    {i : InstanceId} {d' : Estate β} (hd' : v.estate? i = some d') :
    ∃ d, w.estate? i = some d ∧ d'.handlers = d.handlers := by
  induction h generalizing d' with
  | refl => exact ⟨d', hd', rfl⟩
  | @abandons u u' hsheds e ev he hnone hsettled ih =>
      obtain ⟨d, hd, rfl | ⟨hi, rfl⟩⟩ := hsettled.estate_of_some hd'
      · exact ih hd
      · -- the handlers on the list of the event are not connected any more
        obtain ⟨d₀, hd₀, hsame⟩ := ih hd
        refine ⟨d₀, hd₀, ?_⟩
        rw [← hsame]
        refine List.filter_eq_self.mpr fun g hg => ?_
        simp only [decide_eq_true_eq]
        intro hid
        have hserving := (hw.sheds hsheds).serving e ev hsettled.found hsettled.wasOpen d
          (hi ▸ hd) g hg hid
        exact hnone i d hd g hg hserving
  | @drops u _ _ j hj ih =>
      rw [World.estate?_dropInstance] at hd'
      split at hd'
      · cases hd'
      · exact ih hd'

/-- Reclaiming leaves an event alone, or abandons it if it is open. -/
theorem World.Sheds.event (h : World.Sheds events w v) (e : EventId) :
    v.events.find? e = w.events.find? e ∨ ∃ ev, w.events.find? e = some ev ∧ ev.isOpen = true ∧
      v.events.find? e = some (ev.settle (.error .abandoned)) := by
  induction h with
  | refl => exact .inl rfl
  | drops _ _ i hi ih => exact ih
  | abandons _ f ev hf hnone hsettled ih =>
      rw [hsettled.event]
      split
      · next he =>
          have hfound := hsettled.found
          rw [← he] at hfound
          rcases ih with hsame | ⟨ev₀, -, hopen₀, hev₀⟩
          · exact .inr ⟨ev, hsame.symm.trans hfound, hsettled.wasOpen, rfl⟩
          · cases hev₀.symm.trans hfound
            have hopen := hsettled.wasOpen
            rw [World.isOpen_settle hopen₀] at hopen
            cases hopen
      · exact ih

end

/-- **The two records agree in every state of a run.** -/
theorem Machine.Reachable.bridged {client : Client σ β κ} {m : Machine σ β κ}
    (h : Machine.Reachable client m) : m.world.Bridged := by
  induction h with
  | initial state callback =>
      exact ⟨fun e ev h => (by cases h), fun i d h => (by cases h), fun e ev h => (by cases h),
        fun e ev h => (by cases h), fun e ev h => (by cases h)⟩
  | @step m hreach ih =>
      refine World.Bridged.sheds ?_ (Machine.sheds_step client m)
      cases (deal_advance client m).bridging ih with
      | plain h => exact ih.plain h
      | awaits i d reject e hs h => exact ih.awaits hreach.ordered h
      | settles now now' stack reply h e o hm hs hs' hremaining hconnected hout hw =>
          rw [hw]
          exact ih.settle e o

end ObjectSystem
