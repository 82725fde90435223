import ObjectSystem.Proofs.Ages
import ObjectSystem.Proofs.Awaiting
import ObjectSystem.Proofs.Gates
import ObjectSystem.Proofs.Tidy

/-!
# When awaited events are abandoned

An awaited event is unresolved as long as one of its handlers is connected, and resolved when the
last of them is gone, unless an emission still holds them (`Machine.Reachable.connected_of_isOpen`).
Disposal disconnects the handlers that are connected at that moment, and no others come for the same
event. So an instance with a connected handler of an event is disposed exactly if it was disposed
when the event was awaited (`Machine.Mourns.after`): an event of a disposed instance can only hang if
it was awaited after the disposal, and then it does (`awaited_event_resolves`).
-/

namespace ObjectSystem

variable {σ β κ : Type}

/-! ## Identities of instances -/

theorem Table.find?_of_mem {ι α : Type} [DecidableEq ι] {t : Table ι α} (h : t.keys.Nodup) {key : ι}
    {value : α} (hmem : (key, value) ∈ t.entries) : t.find? key = some value := by
  unfold Table.keys at h
  unfold Table.find?
  generalize t.entries = entries at h hmem
  induction entries with
  | nil => cases hmem
  | cons entry rest ih =>
      obtain ⟨hnot, hrest⟩ := List.nodup_cons.mp h
      rcases List.mem_cons.mp hmem with rfl | hmem
      · rw [List.lookup_cons_self]
      · have hne : key ≠ entry.1 := by
          rintro rfl
          exact hnot (List.mem_map.mpr ⟨_, hmem, rfl⟩)
        rw [List.lookup_cons, beq_false_of_ne hne]
        exact ih hrest hmem

namespace World

theorem keys_addInstance (w : World β) (ofClass : Class β) (c : ContextId) :
    (w.addInstance ofClass c).1.instances.keys = w.instances.keys ++ [⟨w.nextInstance⟩] :=
  List.map_append

theorem keys_dropInstance (w : World β) (i : InstanceId) :
    (w.dropInstance i).instances.keys.Sublist w.instances.keys :=
  List.filter_sublist.map _

theorem keys_checkLoop (w : World β) (l : LoopId) :
    (w.checkLoop l).world.instances.keys = w.instances.keys := by
  unfold checkLoop
  split
  · rfl
  · split <;> rfl

theorem keys_continueLoop (w : World β) (l : LoopId) (reply : Reply β) :
    (w.continueLoop l reply).world.instances.keys = w.instances.keys := by
  unfold continueLoop
  split
  · exact keys_checkLoop w l
  · split
    · rfl
    · split
      · rfl
      · split
        · rfl
        · split
          · exact keys_checkLoop w l
          · rfl

end World

namespace Machine

variable {client : Client σ β κ} {m : Machine σ β κ}

/-- A move leaves the identities of instances alone, or adds a new one. -/
theorem keys_advance (client : Client σ β κ) (m : Machine σ β κ) :
    (m.advance client).world.instances.keys = m.world.instances.keys ∨
      (m.advance client).world.instances.keys =
        m.world.instances.keys ++ [⟨m.world.nextInstance⟩] := by
  have keys {v w : World β} (h : v = w) : v.instances.keys = w.instances.keys := by rw [h]
  cases passing_advance client m with
  | sidesteps h => exact .inl h.keys
  | performs command hm h =>
      cases command with
      | construct con =>
          have hkeys := (keys h).trans (m.world.bypasses_construct con).keys
          split at hkeys
          · exact .inl hkeys
          · exact .inr (hkeys.trans (m.world.keys_addInstance _ _))
      | newLoop | runLoop | quitLoop => exact .inl ((keys h).trans rfl)
      | _ => exact .inl ((keys h).trans (World.bypasses_perform _ rfl).keys)
  | resumes frame reply stack hm hs hframe h =>
      cases frame with
      | constructing i properties =>
          rcases m.world.bypasses_continueConstructing i properties reply with hb | ⟨rfl, hclose⟩
          · exact .inl ((keys h).trans hb.keys)
          · exact .inl ((keys (h.trans hclose)).trans (World.keys_modifyInstance _ _ _))
      | loop l => exact .inl ((keys h).trans (m.world.keys_checkLoop l))
      | looped l => exact .inl ((keys h).trans (m.world.keys_continueLoop l reply))
      | _ => cases hframe

theorem keys_reclaim (client : Client σ β κ) (m : Machine σ β κ) :
    (m.step client).world.instances.keys.Sublist (m.advance client).world.instances.keys := by
  refine reclaim_induction client m (m.advance client)
    (P := fun v => v.instances.keys.Sublist (m.advance client).world.instances.keys) ?_ ?_ (.refl _)
  · exact fun v i h => (World.keys_dropInstance v i).trans h
  · intro v e h
    rw [(v.sidesteps_settle e _).keys]
    exact h

/-- Live instances have different identities. -/
theorem Reachable.identities (hreach : m.Reachable client) : m.world.instances.keys.Nodup := by
  induction hreach with
  | initial state callback => exact .nil
  | @step m hreach ih =>
      refine (keys_reclaim client m).nodup ?_
      rcases keys_advance client m with h | h
      · rw [h]
        exact ih
      · rw [h]
        refine List.nodup_append.mpr ⟨ih, List.nodup_singleton _, ?_⟩
        rintro i hi j hj rfl
        obtain rfl := List.mem_singleton.mp hj
        -- the new identity belongs to no instance so far
        obtain ⟨⟨_, x⟩, hmem, rfl⟩ := List.mem_map.mp hi
        have hx : m.world.instance? _ = some x := Table.find?_of_mem ih hmem
        exact Nat.lt_irrefl _ (hreach.tracked.created _ x.duties (World.duties?_eq hx))

end Machine

/-! ## Disposals -/

namespace World

/-- A change that disposes no instance. -/
def DisposesNone (w v : World β) : Prop :=
  ∀ i d', v.duties? i = some d' → d'.disposed = true → ∃ d, w.duties? i = some d ∧ d.disposed = true

section
variable {u v w : World β}

theorem DisposesNone.refl (w : World β) : DisposesNone w w :=
  fun _ d hd hdisposed => ⟨d, hd, hdisposed⟩

theorem DisposesNone.trans (h : DisposesNone u v) (g : DisposesNone v w) : DisposesNone u w := by
  intro i d'' hd'' hdisposed
  obtain ⟨d', hd', hdisposed'⟩ := g i d'' hd'' hdisposed
  exact h i d' hd' hdisposed'

theorem disposesNone_of_eq (h : ∀ i, v.duties? i = w.duties? i) : DisposesNone w v :=
  fun i d' hd' hdisposed => ⟨d', (h i).symm.trans hd', hdisposed⟩

theorem Steady.disposesNone (h : Steady w v) : DisposesNone w v :=
  fun _ d' hd' hdisposed => ⟨d', h.duties_of_some hd', hdisposed⟩

theorem disposesNone_modifyInstance (w : World β) (i : InstanceId) {f : Instance β → Instance β}
    (hf : ∀ x, (f x).disposed = x.disposed) : DisposesNone w (w.modifyInstance i f) := by
  intro j d' hd' hdisposed
  rw [duties?_modifyInstance] at hd'
  split at hd'
  · obtain ⟨x, hx, rfl⟩ := Option.map_eq_some_iff.mp hd'
    exact ⟨x.duties, duties?_eq hx, (hf x).symm.trans hdisposed⟩
  · exact ⟨d', hd', hdisposed⟩

theorem disposesNone_setBurst (w : World β) (i : InstanceId) (name : String) (burst : Burst) :
    DisposesNone w (w.modifyInstance i (·.setBurst name burst)) :=
  disposesNone_modifyInstance w i fun _ => rfl

theorem disposesNone_addInstance (w : World β) (ofClass : Class β) (c : ContextId) :
    DisposesNone w (w.addInstance ofClass c).1 := by
  intro i d' hd' hdisposed
  rw [duties?_addInstance] at hd'
  rcases Option.or_eq_some_iff.mp hd' with hold | ⟨-, hnew⟩
  · exact ⟨d', hold, hdisposed⟩
  · split at hnew
    · cases hnew
      cases hdisposed
    · cases hnew

theorem disposesNone_scheduleHooks (w : World β) (i : InstanceId) (x : Instance β) :
    DisposesNone w (w.scheduleHooks i x) := by
  refine scheduleHooks_induction w i x (.refl w) fun v typeName hook hv => hv.trans ?_
  refine scheduleReady_induction v i typeName hook (.refl v) fun y z _ _ => ?_
  refine DisposesNone.trans ?_ (disposesNone_modifyInstance _ i fun _ => rfl)
  exact disposesNone_of_eq fun _ => rfl

theorem disposesNone_restartBurst (w : World β) (i : InstanceId) (name : String)
    (debounce : Debounce) (callback : β) :
    DisposesNone w (w.restartBurst i name debounce callback) := by
  refine restartBurst_induction w i name debounce callback (.refl w) fun x y _ _ => ?_
  refine DisposesNone.trans ?_ (disposesNone_setBurst _ i name _)
  exact disposesNone_of_eq fun _ => rfl

theorem disposesNone_startWork (w : World β) (c : ContextId) (id : SourceId)
    (work : SourceWork β) : DisposesNone w (w.startWork c id work []).world := by
  refine startWork_induction w c id work [] (.refl w) ?_ ?_
  · exact fun i typeName hook _ => disposesNone_modifyInstance w i fun _ => rfl
  · exact fun i name trigger callback burst _ => disposesNone_setBurst w i name _

/-- Disposal disposes the one instance. -/
theorem disposed_of_dispose {i j : InstanceId} {d' : Duties β}
    (hd' : (w.dispose i).duties? j = some d') (hdisposed : d'.disposed = true) :
    j = i ∨ ∃ d, w.duties? j = some d ∧ d.disposed = true := by
  revert hd'
  refine dispose_induction w i (fun hd' => .inr ⟨d', hd', hdisposed⟩) fun x _ _ hd' => ?_
  rw [duties?_modifyInstance] at hd'
  split at hd'
  · next heq => exact .inl heq
  · exact .inr ⟨d', hd', hdisposed⟩

end

end World

/-- Whatever is disposed after a turn was disposed before, unless the turn is its disposal. -/
theorem Turn.disposed {m m' : Machine σ β κ} (h : Turn m m') {i : InstanceId} {d' : Duties β}
    (hd' : m'.world.duties? i = some d') (hdisposed : d'.disposed = true) :
    m.control = .perform (.dispose i) ∨
      ∃ d, m.world.duties? i = some d ∧ d.disposed = true := by
  have keeps (hw : World.DisposesNone m.world m'.world) :
      m.control = .perform (.dispose i) ∨ ∃ d, m.world.duties? i = some d ∧ d.disposed = true :=
    .inr (hw i d' hd' hdisposed)
  have edit {w : World β} (hw : World.Steady w m'.world)
      (hd : ∀ i, w.duties? i = m.world.duties? i) : World.DisposesNone m.world m'.world :=
    (World.disposesNone_of_eq hd).trans hw.disposesNone
  cases h with
  | disposes j hm hw hs hc =>
      rcases World.disposed_of_dispose (hw.duties_of_some hd') hdisposed with rfl | hold
      · exact .inl hm
      · exact .inr hold
  | still hw hs hc => exact keeps hw.disposesNone
  | opens config hw hs hc => exact keeps (edit hw fun _ => rfl)
  | ticks c now hm hw hs hc => exact keeps (edit hw fun _ => rfl)
  | attaches c x kind priority work hx hp hw hs hc => exact keeps (edit hw fun _ => rfl)
  | detaches c x id hm hx hw hs hc => exact keeps (edit hw fun _ => rfl)
  | creates ofClass c hw hs hc =>
      exact keeps ((World.disposesNone_addInstance _ ofClass c).trans hw.disposesNone)
  | calls j name args x callback hm hx hd hf hw hs hc => exact keeps hw.disposesNone
  | callsAtOnce j name args x callback debounce hm hx hd hf hr hw hs hc =>
      exact keeps ((World.disposesNone_setBurst _ j name _).trans hw.disposesNone)
  | callsLater j name args x callback debounce hm hx hd hf hr hw hs hc =>
      have hburst := World.disposesNone_setBurst m.world j name
        ((x.burst name).record debounce.trigger args)
      exact keeps ((hburst.trans (World.disposesNone_restartBurst _ j _ _ _)).trans hw.disposesNone)
  | startsInterval j name debounce callback hw hs hc =>
      exact keeps ((World.disposesNone_restartBurst _ j _ _ _).trans hw.disposesNone)
  | constructs f rest j hf hw hs hs' hc => exact keeps hw.disposesNone
  | schedules j x hx hw hs hc =>
      exact keeps ((World.disposesNone_scheduleHooks _ j x).trans hw.disposesNone)
  | collects c x worked hx hw hs hc => exact keeps (edit hw fun _ => rfl)
  | skips c id ready worked rest hx hw hs hs' hc => exact keeps hw.disposesNone
  | begins c id ready worked rest x y work hx hb hw hs hs' hc =>
      have hset : World.DisposesNone m.world (m.world.setContext c y) :=
        World.disposesNone_of_eq fun _ => rfl
      exact keeps ((hset.trans (World.disposesNone_startWork _ c id work)).trans hw.disposesNone)
  | ends c id mayStay stays hstay hw hs hc => exact keeps (edit hw fun _ => rfl)
  | closes c worked hw hs hc => exact keeps hw.disposesNone

/-! ## Connected handlers -/

open World (Plain Awaits Awaited)

section
variable {client : Client σ β κ} {m : Machine σ β κ} {e : EventId} {i : InstanceId}
  {hs : List (Handler β)}

theorem Machine.Reachable.bridged_advance (hreach : m.Reachable client) :
    (m.advance client).world.Bridged := by
  cases (deal_advance client m).bridging hreach.bridged with
  | plain h => exact hreach.bridged.plain h
  | awaits i d reject e hs h => exact hreach.bridged.awaits hreach.ordered h
  | settles now now' stack reply h e o hm hs hs' hremaining hconnected hout hw =>
      rw [hw]
      exact hreach.bridged.settle e o

/-- Disposal leaves an instance without handlers. -/
theorem World.handlers_dispose {w : World β} {y : Instance β} (hy : w.instance? i = some y)
    (hd : y.disposed = false) {d : Estate β} (h : (w.dispose i).estate? i = some d) :
    d.handlers = [] := by
  rw [dispose_eq hy hd, estate?_modifyInstance (g := fun d => { d with handlers := [] }) _ i i
    (fun _ => rfl), if_pos rfl] at h
  obtain ⟨_, -, rfl⟩ := Option.map_eq_some_iff.mp h
  rfl

/-- An instance that still has handlers after a step is not disposed with it. -/
theorem Machine.disposed_step (hreach : m.Reachable client) {y y' : Instance β}
    (hy : m.world.instance? i = some y) (hy' : (m.step client).world.instance? i = some y')
    (h : y'.handlers ≠ []) : y'.disposed = y.disposed := by
  have hduties := World.duties?_eq hy
  have hduties' := World.duties?_eq hy'
  cases hd : y.disposed with
  | true =>
      -- what is disposed stays so
      rcases (turn_step client m).ages.ages i y'.duties hduties' with ⟨d, hold, hages⟩ | hge
      · obtain rfl := Option.some.inj (hduties.symm.trans hold)
        exact hages.disposed hd
      · exact absurd (hreach.tracked.created i _ hduties) (Nat.not_lt.mpr hge)
  | false =>
      cases hd' : y'.disposed with
      | false => rfl
      | true =>
          rcases (turn_step client m).disposed hduties' hd' with hm | ⟨d, hold, hdisposed⟩
          · obtain ⟨d, hd₀, hsame⟩ := hreach.bridged_advance.handlers_of_sheds
              (Machine.sheds_step client m) (World.estate?_eq hy')
            rw [advance_perform client hm] at hd₀
            exact absurd (hsame.trans (World.handlers_dispose hy hd hd₀)) h
          · obtain rfl := Option.some.inj (hduties.symm.trans hold)
            exact hdisposed.symm.trans hd

/-- A handler of an event that is awaited already was connected before the step. -/
theorem World.Awaited.connected_before (hreach : m.Reachable client)
    (h : m.world.Awaited e i hs) {j : InstanceId} {y' : Instance β}
    (hy' : (m.step client).world.instance? j = some y') {g : Handler β} (hg : g ∈ y'.handlers)
    (htarget : g.target.event? = some e) : ∃ y, m.world.instance? j = some y ∧ g ∈ y.handlers := by
  suffices ∃ d, m.world.estate? j = some d ∧ g ∈ d.handlers by
    obtain ⟨d, hd, hmem⟩ := this
    obtain ⟨y, hy, rfl⟩ := Option.map_eq_some_iff.mp hd
    exact ⟨y, hy, hmem⟩
  obtain ⟨d', hd', hsame⟩ := hreach.bridged_advance.handlers_of_sheds
    (Machine.sheds_step client m) (World.estate?_eq hy')
  have hg' : g ∈ d'.handlers := hsame ▸ hg
  cases (deal_advance client m).bridging hreach.bridged with
  | plain hplain => exact hplain.mem_handlers hd' hg' htarget
  | awaits k d reject f gs hawaits =>
      rcases hawaits.mem_handlers hd' hg' with hold | ⟨-, hnew⟩
      · exact hold
      · -- the new handlers are those of another event
        cases (hawaits.event?_of_mem hnew).symm.trans htarget
        exact absurd rfl (h.awaits hreach.bridged hawaits).1
  | settles now now' stack reply f e' o hm hs hs' hremaining hconnected hout hw =>
      rw [hw] at hd'
      rcases World.settled_or_same m.world e' o with ⟨ev, hsettled⟩ | hnothing
      · obtain ⟨d, hd, hmem, -⟩ := hsettled.mem_handlers hd' hg'
        exact ⟨d, hd, hmem⟩
      · rw [hnothing] at hd'
        exact ⟨d', hd', hg'⟩

/-- An instance with a connected handler of an event is disposed or not, as the flag says. -/
def Machine.Mourns (m : Machine σ β κ) (e : EventId) (disposed : Bool) : Prop :=
  ∀ j y, m.world.instance? j = some y → ∀ g ∈ y.handlers, g.target.event? = some e →
    y.disposed = disposed

theorem Machine.Mourns.step {disposed : Bool} (h : m.Mourns e disposed)
    (hreach : m.Reachable client) (hawaited : m.world.Awaited e i hs) :
    (m.step client).Mourns e disposed := by
  intro j y' hy' g hg htarget
  obtain ⟨y, hy, hmem⟩ := hawaited.connected_before hreach hy' hg htarget
  exact (disposed_step hreach hy hy' (List.ne_nil_of_mem hg)).trans (h j y hy g hmem htarget)

theorem Machine.Mourns.after {disposed : Bool} (h : m.Mourns e disposed)
    (hreach : m.Reachable client) (hawaited : m.world.Awaited e i hs) (n : Nat) :
    (m.after client n).Mourns e disposed := by
  induction n with
  | zero => exact h
  | succ n ih => exact ih.step (hreach.after n) (hawaited.after hreach n)

/-! ## Unresolved events -/

theorem Machine.layerEvents_of_emissions (h : m.emissions = []) :
    m.stack.flatMap layerEvents = [] := by
  rw [List.flatMap_eq_nil_iff]
  intro layer hlayer
  have hnone := List.filterMap_eq_nil_iff.mp h layer hlayer
  cases layer with
  | callback rest inv => rfl
  | operation f =>
      cases f with
      | emission e => cases hnone
      | _ => rfl

theorem Machine.Reachable.tidy (hreach : m.Reachable client) :
    m.world.lostEvents (m.stack.flatMap layerEvents) = [] := by
  cases hreach with
  | initial state callback => rfl
  | @step m _ => exact (isTidy_iff.mp (tidy_step client m)).1

/-- **When no emission is in progress, an open event has a handler that is connected.** -/
theorem Machine.Reachable.connected_of_isOpen (hreach : m.Reachable client)
    (hcalm : m.emissions = []) {ev : Event} (hev : m.world.events.find? e = some ev)
    (hopen : ev.isOpen = true) :
    ∃ y h, m.world.instance? ev.owner = some y ∧ h ∈ y.handlers ∧ h.target.event? = some e := by
  have hlost := hreach.tidy
  rw [layerEvents_of_emissions hcalm] at hlost
  unfold World.lostEvents at hlost
  rw [List.filter_eq_nil_iff, List.append_nil] at hlost
  have hmem : e ∈ m.world.openEvents := by
    obtain ⟨before, after, hentries, -⟩ := List.lookup_eq_some_iff.mp hev
    refine List.mem_filter.mpr ⟨?_, World.isOpen_eq_true.mpr ⟨ev, hev, hopen⟩⟩
    unfold Table.keys
    rw [hentries]
    simp
  have hhandled := hlost e hmem
  simp only [decide_eq_true_eq, Decidable.not_not] at hhandled
  obtain ⟨y, hy, hevents⟩ := List.mem_flatMap.mp hhandled
  obtain ⟨h, hh, htarget⟩ := List.mem_filterMap.mp hevents
  obtain ⟨⟨j, y'⟩, hentry, rfl⟩ := List.mem_map.mp hy
  have hfind : m.world.instance? j = some y' := Table.find?_of_mem hreach.identities hentry
  -- a handler of the event is one of its owner
  obtain ⟨ev', hev', -, howner, -⟩ :=
    hreach.bridged.served j y'.estate (World.estate?_eq hfind) h hh e htarget
  obtain rfl := Option.some.inj (hev.symm.trans hev')
  exact ⟨y', h, howner ▸ hfind, hh, htarget⟩

/-- An event that is closed has been resolved. -/
theorem World.Awaited.resolved (hreach : m.Reachable client) (hawaited : m.world.Awaited e i hs)
    (hfirst : ∀ ev, m.world.events.find? e = some ev → ev.isOpen = false → ∃ o, ev.outcome = some o)
    {n : Nat} {ev : Event} (hev : (m.after client n).world.events.find? e = some ev)
    (hclosed : ev.isOpen = false) : ∃ k, k ≤ n ∧ ∃ o, (m.after client k).outcome? e = some o := by
  have told {k : Nat} {ev : Event} {o : EventOutcome}
      (hev : (m.after client k).world.events.find? e = some ev) (ho : ev.outcome = some o) :
      (m.after client k).outcome? e = some o := by
    unfold Machine.outcome?
    rw [hev]
    exact ho
  induction n generalizing ev with
  | zero =>
      obtain ⟨o, ho⟩ := hfirst ev hev hclosed
      exact ⟨0, Nat.le_refl 0, o, told hev ho⟩
  | succ n ih =>
      cases (hawaited.after hreach n).verdict (hreach.after n) with
      | settles ev₀ g args o hg hinv hout hsettled hev' =>
          refine ⟨n + 1, Nat.le_refl _, o, told hev' ?_⟩
          rw [World.isOpen_settle hsettled.wasOpen]
      | abandons ev₀ ev' hnot hev₀ hopen hev' hclosed' hout =>
          exact ⟨n + 1, Nat.le_refl _, _, told hev' hout⟩
      | ages ev₀ ev' hnot hev₀ hev' hage =>
          obtain rfl := Option.some.inj (hev'.symm.trans hev)
          obtain ⟨k, hk, ho⟩ := ih hev₀ (hage.isOpen.symm.trans hclosed)
          exact ⟨k, Nat.le_succ_of_le hk, ho⟩

/-- An event that was just awaited waits, or it is abandoned because its instance is gone. -/
theorem World.Awaits.stage {v : World β} {w : World β} {d : Estate β} {reject : Option String}
    {events : List EventId} (h : Awaits w i d reject e hs v)
    (hsheds : World.Sheds events v m.world) :
    Stage client m e i hs 0 ∧ ∀ ev, m.world.events.find? e = some ev → ev.isOpen = false →
      ∃ o, ev.outcome = some o := by
  have hnone (k : Nat) (hk : k < 0) (j : InstanceId) (g : Handler β) (args : List Value)
      (_ : (m.after client k).invoked? client = some (j, g, args)) : g ∉ hs :=
    absurd hk (Nat.not_lt_zero k)
  have hnew : v.events.find? e = some { owner := i, handlers := hs.map (·.id) } := by
    rw [h.event, if_pos rfl]
  rcases hsheds.event e with hsame | ⟨ev, hfound, hopen, habandoned⟩
  · refine ⟨.waits _ (hsame.trans hnew) rfl hnone, fun ev hev hclosed => ?_⟩
    obtain rfl := Option.some.inj ((hsame.trans hnew).symm.trans hev)
    cases hclosed
  · rw [World.isOpen_settle hopen] at habandoned
    refine ⟨.abandoned _ habandoned rfl (.inl rfl) hnone, fun ev' hev' _ => ?_⟩
    obtain rfl := Option.some.inj (habandoned.symm.trans hev')
    exact ⟨_, rfl⟩

end

/-- When an awaited event is resolved: `m` is the state in which its handlers have been connected to
the instance, and the flag tells whether that was disposed at that time. -/
structure Machine.Resolves (client : Client σ β κ) (m : Machine σ β κ) (e : EventId) (i : InstanceId)
    (hs : List (Handler β)) (disposed : Bool) (n : Nat) (ev : Event) : Prop where
  /-- The event is unresolved as long as one of its handlers is connected to its instance. This is
  still there, and disposed only if it was so from the beginning. -/
  waits : ev.isOpen = true ↔ ∃ y, (m.after client n).world.instance? i = some y ∧
    y.disposed = disposed ∧ ∃ h ∈ hs, h ∈ y.handlers
  /-- Otherwise it has got its outcome, from the handler that was called, or it is abandoned and none
  is ever called. -/
  resolved : ev.isOpen = false → ∃ k, k ≤ n ∧ ∃ o, (m.after client k).outcome? e = some o ∧
    ((∃ l h args, l < k ∧ h ∈ hs ∧ (m.after client l).invoked? client = some (i, h, args) ∧
      h.target.outcome? args = some (e, o)) ∨
    o = .error .abandoned ∧ ∀ l j h args, (m.after client l).invoked? client = some (j, h, args) →
      h ∉ hs)

/-- **When an awaited event hangs.** In every state in which no emission is in progress, an awaited
event that is unresolved has an instance with a connected handler, which is disposed exactly if it
was disposed when the event was awaited. So the event of an instance that was not disposed then is
resolved as soon as this is disposed or dropped; it is abandoned if neither handler was called. -/
theorem awaited_event_resolves (client : Client σ β κ) (state : σ) (program : β) (k : Nat)
    (i : InstanceId) (resolve : String) (reject : Option String) (e : EventId)
    (hm : ((Machine.initial state program).after client k).control =
      .perform (.awaitEvent i resolve reject))
    (hgranted : (((Machine.initial state program).after client k).step client).control =
      .deliver (.event e)) :
    let m : Machine σ β κ := (Machine.initial state program).after client k
    let m' := m.step client
    ∃ x hs, m.world.instance? i = some x ∧
      hs.map Handler.address = (resolve :: reject.toList).map Instance.addressOf ∧
      hs.map (·.target) = .resolves e :: reject.toList.map (.rejects e) ∧
      ∀ n, (m'.after client n).emissions = [] →
        ∃ ev, (m'.after client n).world.events.find? e = some ev ∧
          m'.Resolves client e i hs x.disposed n ev := by
  intro m m'
  have hreach : Machine.Reachable client m := (Machine.Reachable.initial state program).after k
  have hcontrol : (m.advance client).control = .deliver (.event e) :=
    (Machine.control_step client m).symm.trans hgranted
  rcases Machine.advance_awaitEvent client hreach.bridged hm with
    ⟨hrefused | ⟨error, hrefused⟩, -⟩ | ⟨e', d, hs, hdelivers, haddress, hawaits⟩
  · cases hrefused.symm.trans hcontrol
  · cases hrefused.symm.trans hcontrol
  obtain rfl : e' = e := by
    cases hdelivers.symm.trans hcontrol
    rfl
  have hsheds := Machine.sheds_step client m
  have hawaited : m'.world.Awaited e' i hs := (hawaits.awaited hreach.bridged).sheds hsheds
  obtain ⟨hstage, hfirst⟩ : Stage client m' e' i hs 0 ∧ _ := hawaits.stage hsheds
  obtain ⟨x, hx, rfl⟩ := Option.map_eq_some_iff.mp hawaits.owner
  have hmourns : m'.Mourns e' x.disposed := by
    intro j y hy g hg htarget
    obtain ⟨ev, hev, -, howner, -⟩ :=
      hreach.step.bridged.served j y.estate (World.estate?_eq hy) g hg e' htarget
    obtain ⟨ev', hev', howner', -⟩ := hawaited.event
    obtain rfl := Option.some.inj (hev.symm.trans hev')
    obtain rfl : i = j := howner'.symm.trans howner
    exact Machine.disposed_step hreach hx hy (List.ne_nil_of_mem hg)
  refine ⟨x, hs, hx, haddress, hawaits.targets, fun n hcalm => ?_⟩
  have hreach' : Machine.Reachable client (m'.after client n) := hreach.step.after n
  have hawaited' := hawaited.after hreach.step n
  obtain ⟨ev, hev, howner, -⟩ := hawaited'.event
  refine ⟨ev, hev, ⟨fun hopen => ?_, fun ⟨y, hy, _, h, hh, hmem⟩ => ?_⟩, fun hclosed => ?_⟩
  · obtain ⟨y, h, hy, hmem, htarget⟩ := hreach'.connected_of_isOpen hcalm hev hopen
    rw [howner] at hy
    exact ⟨y, hy, hmourns.after hreach.step hawaited n i y hy h hmem htarget, h,
      hawaited'.only i y.estate (World.estate?_eq hy) h hmem htarget, hmem⟩
  · obtain ⟨ev', hev', hopen⟩ := hawaited'.isOpen hreach' hh ⟨y, hy, hmem⟩
    obtain rfl := Option.some.inj (hev.symm.trans hev')
    exact hopen
  · obtain ⟨l, hl, o, ho⟩ := hawaited.resolved hreach.step hfirst hev hclosed
    exact ⟨l, hl, o, ho, hawaited.origin hreach.step hstage ho⟩

/-- A program that awaits a signal of an instance, disposes the instance and awaits the signal
again. -/
def mourner : Client Unit Nat (Routine Nat) :=
  .ofRoutines
    (fun _ => { acts := [.command (.newContext { clock := .manual }),
      .command (.construct { ofClass := .simple .empty [] none, context := ⟨0⟩ }),
      .command (.awaitEvent ⟨1⟩ "notify::done" none),
      .command (.dispose ⟨1⟩),
      .command (.awaitEvent ⟨1⟩ "notify::done" none)] })
    [.object ⟨1⟩]

def mournerAfter (n : Nat) : Machine Unit Nat (Routine Nat) :=
  (Machine.initial () 0).after mourner n

/-- The instance is disposed and the event is not resolved. -/
theorem mourner_hangs : ∃ ev x, (mournerAfter 13).world.events.find? ⟨1⟩ = some ev ∧
    ev.owner = ⟨1⟩ ∧ ev.isOpen = true ∧
    (mournerAfter 13).world.instance? ⟨1⟩ = some x ∧ x.disposed = true := by
  have hevent : ((mournerAfter 13).world.events.find? ⟨1⟩).map (fun ev => (ev.owner, ev.isOpen)) =
      some (⟨1⟩, true) := by decide +kernel
  have hinstance : ((mournerAfter 13).world.instance? ⟨1⟩).map (·.disposed) = some true := by
    decide +kernel
  obtain ⟨ev, hev, hfields⟩ := Option.map_eq_some_iff.mp hevent
  obtain ⟨howner, hopen⟩ := Prod.mk.inj hfields
  obtain ⟨x, hx, hdisposed⟩ := Option.map_eq_some_iff.mp hinstance
  exact ⟨ev, x, hev, howner, hopen, hx, hdisposed⟩

theorem World.disposed_eq {w : World β} {i : InstanceId} {x : Instance β} {b : Bool}
    (hx : w.instance? i = some x) (h : (w.instance? i).map (·.disposed) = some b) :
    x.disposed = b := by
  rw [hx] at h
  exact Option.some.inj h

set_option maxRecDepth 100000 in
/-- The event that was awaited before the disposal is resolved with it; the one that was awaited
afterwards waits for the disposed instance. -/
theorem awaited_event_resolves_mourner :
    (∃ ev, (mournerAfter 11).world.events.find? ⟨0⟩ = some ev ∧ ev.isOpen = false) ∧
      ∃ ev y, (mournerAfter 13).world.events.find? ⟨1⟩ = some ev ∧ ev.isOpen = true ∧
        (mournerAfter 13).world.instance? ⟨1⟩ = some y ∧ y.disposed = true := by
  have hbefore : ((mournerAfter 8).world.instance? ⟨1⟩).map (·.disposed) = some false := by
    decide +kernel
  have hbetween : ((mournerAfter 11).world.instance? ⟨1⟩).map (·.disposed) = some true := by
    decide +kernel
  have hlater : ((mournerAfter 12).world.instance? ⟨1⟩).map (·.disposed) = some true := by
    decide +kernel
  obtain ⟨x, hs, hx, -, -, hfirst⟩ :=
    awaited_event_resolves mourner () 0 8 ⟨1⟩ "notify::done" none ⟨0⟩ (by rfl) (by rfl)
  obtain ⟨x', hs', hx', -, -, hsecond⟩ :=
    awaited_event_resolves mourner () 0 12 ⟨1⟩ "notify::done" none ⟨1⟩ (by rfl) (by rfl)
  have hdisposed : x.disposed = false := World.disposed_eq hx hbefore
  have hdisposed' : x'.disposed = true := World.disposed_eq hx' hlater
  refine ⟨?_, ?_⟩
  · obtain ⟨ev, hev, hresolves⟩ := hfirst 2 (by rfl)
    refine ⟨ev, hev, Bool.eq_false_iff.mpr fun hopen => ?_⟩
    obtain ⟨y, hy, hsame, -⟩ := hresolves.waits.mp hopen
    cases (hsame.trans hdisposed).symm.trans (World.disposed_eq hy hbetween)
  · obtain ⟨ev, hev, hresolves⟩ := hsecond 0 (by rfl)
    obtain ⟨ev', -, hev', -, hopen, -⟩ := mourner_hangs
    obtain rfl := Option.some.inj (hev.symm.trans hev')
    obtain ⟨y, hy, hsame, -⟩ := hresolves.waits.mp hopen
    exact ⟨ev, y, hev, hopen, hy, hsame.trans hdisposed'⟩

/-- An awaited event may hang on an instance that is disposed. -/
theorem awaited_event_hangs :
    ¬ ∀ (client : Client Unit Nat (Routine Nat)) (n : Nat) (e : EventId) (ev : Event),
      let m : Machine Unit Nat (Routine Nat) := (Machine.initial () 0).after client n
      m.emissions = [] → m.world.events.find? e = some ev → ev.isOpen = true →
        ∃ x, m.world.instance? ev.owner = some x ∧ x.disposed = false := by
  intro h
  obtain ⟨ev, x, hev, howner, hopen, hx, hdisposed⟩ := mourner_hangs
  obtain ⟨y, hy, halive⟩ := h mourner 13 ⟨1⟩ ev (by rfl) hev hopen
  rw [howner] at hy
  obtain rfl := Option.some.inj (hx.symm.trans hy)
  cases hdisposed.symm.trans halive

end ObjectSystem
