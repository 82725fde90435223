import ObjectSystem.Proofs.Service
import ObjectSystem.Proofs.Timeouts

/-!
# Debouncing is exact

While the clock of a manual context is moved from outside only, a debounced method of a live instance
runs just as `Debounce.reference` says: the timers, their cancellation and the order in which an advance
steps to them make no difference, and neither does anything else that happens in the context.

Between two calls the method is in one of three phases (`Phase`): idle, with all bursts ended; leading,
while a run at its first call is in progress; and armed, with a timer that ends the burst.
-/

namespace ObjectSystem

variable {σ β κ : Type}

open Machine (marks Reachable Serves Service)

/-! ## Open bursts -/

namespace Debounce

variable (d : Debounce)

/-- What an instance keeps of a burst with some calls after the first. -/
def openBurst (id : SourceId) (first : Timed) (rest : List Timed) : Burst where
  pending := some id
  lastArgs := if d.hasWaiting rest then some (rest.getLastD first).args else none
  trailing := d.hasWaiting rest

/-- The first call waits unless it has run. -/
theorem openBurst_of_call (h : d.trigger.isLeading = false) (id : SourceId) (call : Timed) :
    { ({} : Burst).record d.trigger call.args with pending := some id } =
      d.openBurst id call [] := by
  unfold openBurst Burst.record Burst.runsAtOnce hasWaiting
  cases htrigger : d.trigger with
  | trailing => rfl
  | _ =>
      rw [htrigger] at h
      cases h

theorem openBurst_of_run (h : d.trigger.isLeading = true) (id : SourceId) (call : Timed) :
    { ({} : Burst) with pending := some id } = d.openBurst id call [] := by
  unfold openBurst hasWaiting
  rw [h]
  simp

/-- A further call takes the place of the one that waits. -/
theorem record_openBurst (id id' : SourceId) (first call : Timed) (rest : List Timed) :
    { (d.openBurst id first rest).record d.trigger call.args with pending := some id' } =
      d.openBurst id' first (rest ++ [call]) := by
  unfold openBurst
  rw [hasWaiting_append, List.getLastD_concat]
  unfold Burst.record Burst.runsAtOnce hasWaiting
  cases d.trigger <;> rfl

/-- At its end, a burst yields the call that waits, and nothing is left of it. -/
theorem finish_openBurst (id : SourceId) (first : Timed) (rest : List Timed) :
    (d.openBurst id first rest).finish d.trigger =
      ({}, if d.hasWaiting rest then some (rest.getLastD first).args else none) := by
  unfold openBurst Burst.finish hasWaiting
  cases d.trigger with
  | leading => rfl
  | trailing => rfl
  | leadingTrailing => cases rest <;> rfl

end Debounce

/-! ## The clock goes forward -/

section Clock

variable {client : Client σ β κ} {m : Machine σ β κ} {c : ContextId} {since : Nat}
  {t t' : Timetable β}

/-- While the clock of a context ticks, no operation with marks is in progress. -/
theorem Clockwork.marks_of_ticking (h : Clockwork c since m)
    (hmanual : ∀ t, m.world.timetable? c = some t → t.config.clock = .manual)
    (hticking : m.Ticking c) : marks m.stack = [] := by
  obtain ⟨target, count, stage, stack, reply, hs, -⟩ := hticking.of_manual hmanual
  have hordered := h.ordered
  rw [hs] at hordered ⊢
  rw [Machine.marks_operation]
  exact (hordered.1.moves _ rfl (by simp [Frame.movesClock])).marks

/-- The clock never goes back: an advance sets it to the next deadline, or to a target ahead. -/
theorem Clockwork.now_le (h : Clockwork c since m) (hsound : (m.desk c).Sound)
    (hmanual : ∀ t, m.world.timetable? c = some t → t.config.clock = .manual)
    (ht : m.world.timetable? c = some t) (ht' : (m.step client).world.timetable? c = some t') :
    t.now ≤ t'.now := by
  have hrun : Running c since m (m.step client) :=
    ⟨h, hsound, hmanual, (turn_step client m).desk c⟩
  by_cases hticking : m.Ticking c
  · obtain ⟨target, count, stage, stack, reply, hs, hm⟩ := hrun.ticking hticking
    have hordered := h.ordered
    rw [hs] at hordered
    obtain ⟨u, hu, hle, -⟩ := hordered.1.target target count stage rfl
    obtain rfl := Option.some.inj (ht.symm.trans hu)
    obtain ⟨x, hx, rfl⟩ := Option.map_eq_some_iff.mp ht
    have hctx : m.world.context? c = some x := hx
    have hset {now count' : Nat} {stage' : AdvanceStage}
        (hf : (m.step client).Follows (.perform (m.world.setTime c now) (.runUntilIdle c)
          [.advance c target count' stage']) stack)
        (hnow : x.timetable.now ≤ now) : x.timetable.now ≤ t'.now := by
      have htime := World.timetable?_setTime m.world c now c
      rw [if_pos rfl, ht, Option.map_some] at htime
      have := (hf.world.timetable c).trans htime
      obtain rfl := Option.some.inj (ht'.symm.trans this)
      exact hnow
    have hstep (ran : Nat) (hf : (m.step client).Follows (m.world.stepClock c target ran) stack) :
        x.timetable.now ≤ t'.now := by
      unfold World.stepClock at hf
      rw [hctx] at hf
      dsimp only at hf
      split at hf
      · exact hset hf hle
      · split at hf
        · exact hset hf hle
        · exact hset hf (Nat.le_max_left _ _)
    have hf := Machine.follows_resume client hm hs
    unfold Frame.resume World.continueAdvance at hf
    extract_lets ran at hf
    cases stage with
    | before => exact hstep _ hf
    | within =>
        dsimp only at hf
        split at hf
        · exact hset hf hle
        · exact hstep _ hf
    | after =>
        have hsame := (hf.world.timetable c).trans ht
        obtain rfl := Option.some.inj (ht'.symm.trans hsame)
        exact Nat.le_refl _
  · obtain ⟨u, hu, hnow, -⟩ := hrun.move.sameClock hticking t ht
    obtain rfl := Option.some.inj (ht'.symm.trans hu)
    exact Nat.le_of_eq hnow.symm

end Clock

/-! ## Phases -/

/-- A debounced method of a live instance, in a context whose clock is moved from outside. -/
structure Watched (client : Client σ β κ) (m : Machine σ β κ) (c : ContextId) (since : Nat)
    (i : InstanceId) (name : String) (d : Debounce) (callback : β) (t : Timetable β)
    (e : Duties β) : Prop where
  reachable : Reachable client m
  clockwork : Clockwork c since m
  manual : t.config.clock = .manual
  next : since ≤ t.nextSource
  serves : m.Serves c i name d callback t e

/-- A burst is open: its timer waits for the end. -/
structure Armed (m : Machine σ β κ) (c : ContextId) (since : Nat) (i : InstanceId) (name : String)
    (d : Debounce) (callback : β) (t : Timetable β) (e : Duties β) (calls runs past : List Timed)
    (first : Timed) (rest : List Timed) (s : Source β) : Prop where
  split : calls = past ++ first :: rest
  latest : d.IsLatest past first rest
  called : (rest.getLastD first).time ≤ t.now
  covers : d.Settled s.readyAt calls
  ended : d.Settled t.now past
  runs : runs = d.reference t.now past ++ d.opening first
  burst : e.burst name = d.openBurst s.id first rest
  starting : m.starting i name = []
  waits : m.world.Waits c s
  since : since ≤ s.id.number
  kind : s.kind = .timeout d.interval
  work : s.work = .endOfBurst i name d.trigger callback
  ready : s.readyAt = (rest.getLastD first).time + d.interval
  /-- The end of the burst is due only within an advance. -/
  ahead : t.now < s.readyAt ∨ ∃ target base, Advancing c target base m

/-- Where a debounced method stands, after some calls and runs of it. -/
inductive Phase (m : Machine σ β κ) (c : ContextId) (since : Nat) (i : InstanceId) (name : String)
    (d : Debounce) (callback : β) (t : Timetable β) (e : Duties β) (calls runs : List Timed) : Prop
  /-- No burst is open. -/
  | idle (hburst : e.burst name = {}) (hstarting : m.starting i name = [])
      (hsettled : d.Settled t.now calls) (hruns : runs = d.reference t.now calls)
  /-- The run at the first call of a burst is in progress. -/
  | leading (past : List Timed) (first : Timed) (hat : d.trigger.isLeading = true)
      (hburst : e.burst name = {})
      (hstarting : m.starting i name = [.startInterval i name d callback])
      (hcalls : calls = past ++ [first]) (htime : first.time = t.now)
      (hpast : d.Settled t.now past) (hruns : runs = d.reference t.now past ++ d.opening first)
  /-- A burst is open. -/
  | armed (past : List Timed) (first : Timed) (rest : List Timed) (s : Source β)
      (harmed : Armed m c since i name d callback t e calls runs past first rest s)

section Phase

variable {client : Client σ β κ} {m : Machine σ β κ} {c : ContextId} {since : Nat}
  {i : InstanceId} {name : String} {d : Debounce} {callback : β} {t t' : Timetable β}
  {e e' : Duties β} {calls runs : List Timed}

namespace Watched

theorem manual_all (h : Watched client m c since i name d callback t e) :
    ∀ t, m.world.timetable? c = some t → t.config.clock = .manual := by
  intro u hu
  obtain rfl := Option.some.inj (h.serves.timetable.symm.trans hu)
  exact h.manual

/-- While a run at once is in progress, the clock stands still. -/
theorem not_ticking (h : Watched client m c since i name d callback t e)
    (hstarting : m.starting i name ≠ []) : ¬ m.Ticking c := by
  intro hticking
  refine hstarting ?_
  unfold Machine.starting
  rw [h.clockwork.marks_of_ticking h.manual_all hticking]
  rfl

/-- When the program is in control, nothing is in progress. -/
theorem outside (h : Watched client m c since i name d callback t e) (hone : m.stack.length = 1) :
    m.starting i name = [] ∧ ¬ ∃ target base, Advancing c target base m := by
  obtain ⟨rest, inv, hs⟩ := h.reachable.outside hone
  constructor
  · unfold Machine.starting
    rw [hs]
    rfl
  · rintro ⟨target, base, above, count, stage, hadv⟩
    have hmem : Layer.operation (.advance c target count stage) ∈ m.stack := by
      rw [hadv]
      simp
    rw [hs, List.mem_singleton] at hmem
    cases hmem

/-- After an advance has arrived, a timer that waits is not due. -/
theorem now_lt_of_arrived (h : Watched client m c since i name d callback t e) {s : Source β}
    (hwaits : m.world.Waits c s) (hkind : s.kind.isIdle = false) {target : Nat}
    (harrived : Arrived c target m) : t.now < s.readyAt := by
  obtain ⟨u, hu, r, hr, -, hkind', -, hready, -⟩ := hwaits
  obtain ⟨v, hv, -, hnone⟩ := harrived
  obtain rfl := Option.some.inj (h.serves.timetable.symm.trans hu)
  obtain rfl := Option.some.inj (hu.symm.trans hv)
  rw [← hready]
  exact hnone r hr (hkind' ▸ hkind)

end Watched

/-- Whatever leaves a method alone leaves its phase alone. -/
theorem phase_keeps (h : Watched client m c since i name d callback t e)
    (h' : Watched client (m.step client) c since i name d callback t' e')
    (hphase : Phase m c since i name d callback t e calls runs)
    (hburst : e'.burst name = e.burst name)
    (hstarting : (m.step client).starting i name = m.starting i name)
    (hwaits : ∀ s, (e.burst name).pending = some s.id → s.work.entry? = some (i, some name) →
      m.world.Waits c s → (m.step client).world.Waits c s) :
    Phase (m.step client) c since i name d callback t' e' calls runs := by
  have hle : t.now ≤ t'.now := h.clockwork.now_le (h.reachable.desk c) h.manual_all
    h.serves.timetable h'.serves.timetable
  have hsame (hnot : ¬ m.Ticking c) : t'.now = t.now := by
    obtain ⟨u, hu, hnow, -⟩ :=
      ((turn_step client m).desk c).sameClock hnot t h.serves.timetable
    obtain rfl := Option.some.inj (h'.serves.timetable.symm.trans hu)
    exact hnow
  cases hphase with
  | idle hb hst hsettled hruns =>
      refine .idle (hburst.trans hb) (hstarting.trans hst) (hsettled.mono hle) ?_
      rw [hruns, d.reference_of_settled hsettled hle]
  | leading past first hat hb hst hcalls htime hpast hruns =>
      have hnow := hsame (h.not_ticking (by rw [hst]; exact List.cons_ne_nil _ _))
      refine .leading past first hat (hburst.trans hb) (hstarting.trans hst) hcalls ?_ ?_ ?_
      · rw [hnow, htime]
      · rw [hnow]
        exact hpast
      · rw [hnow, hruns]
  | armed past first rest s ha =>
      have hkind : s.kind.isIdle = false := by
        rw [ha.kind]
        rfl
      have hwaits' : (m.step client).world.Waits c s := by
        refine hwaits s ?_ ?_ ha.waits
        · rw [ha.burst]
          rfl
        · rw [ha.work]
          rfl
      -- the clock comes to the end of the burst only within an advance, which then runs the timer
      have hahead : t'.now < s.readyAt ∨ ∃ target base, Advancing c target base (m.step client) := by
        have hmoves : (∃ target base, Advancing c target base m) ∨ t'.now < s.readyAt := by
          by_cases hticking : m.Ticking c
          · rcases hticking with ⟨target, count, stage, stack, hs, -⟩ | ⟨duration, x, -, hx, hsystem⟩
            · exact .inl ⟨target, stack, [], count, stage, hs⟩
            · have := h.manual_all x.timetable (World.timetable?_eq hx)
              rw [show x.timetable.config.clock = _ from hsystem] at this
              cases this
          · rw [hsame hticking]
            exact ha.ahead.symm
        rcases hmoves with ⟨target, base, hadvancing⟩ | hlt
        · rcases hadvancing.step client h.clockwork (h.reachable.desk c) h.manual_all with
            hadvancing | ⟨-, harrived⟩
          · exact .inr ⟨target, base, hadvancing⟩
          · exact .inl (h'.now_lt_of_arrived hwaits' hkind harrived)
        · exact .inl hlt
      refine .armed past first rest s ?_
      refine { ha with
        called := Nat.le_trans ha.called hle
        ended := ha.ended.mono hle
        runs := ?_
        burst := hburst.trans ha.burst
        starting := hstarting.trans ha.starting
        waits := hwaits'
        ahead := hahead }
      rw [ha.runs, d.reference_of_settled ha.ended hle]

/-- A call that runs at once opens a burst. -/
theorem phase_runs (h : Watched client m c since i name d callback t e)
    (hphase : Phase m c since i name d callback t e calls runs) (hone : m.stack.length = 1)
    {args : List Value} (hnow : t'.now = t.now)
    (hat : (e.burst name).runsAtOnce d.trigger = true)
    (hburst : e'.burst name = (e.burst name).record d.trigger args)
    (hstarting : (m.step client).starting i name =
      .startInterval i name d callback :: m.starting i name) :
    Phase (m.step client) c since i name d callback t' e' (calls ++ [⟨t.now, args⟩])
      (runs ++ [⟨t.now, args⟩]) := by
  obtain ⟨hnone, -⟩ := h.outside hone
  cases hphase with
  | idle hb hst hsettled hruns =>
      rw [hb] at hat hburst
      have hleading : d.trigger.isLeading = true := by
        unfold Burst.runsAtOnce at hat
        exact (Bool.and_eq_true_iff.mp hat).1
      refine .leading calls ⟨t.now, args⟩ hleading ?_ (hst ▸ hstarting) rfl hnow.symm ?_ ?_
      · rw [hburst]
        unfold Burst.record
        rw [hat]
        rfl
      · rw [hnow]
        exact hsettled
      · unfold Debounce.opening
        rw [hnow, hruns, hleading]
        rfl
  | leading past first _ _ hst _ _ _ _ => cases hnone.symm.trans hst
  | armed past first rest s ha =>
      rw [ha.burst] at hat
      unfold Burst.runsAtOnce Debounce.openBurst at hat
      rw [Option.isNone_some, Bool.and_false] at hat
      cases hat

/-- A call that does not run at once opens a burst, or joins the one that is open. -/
theorem phase_delays (hpos : 0 < d.interval) (h : Watched client m c since i name d callback t e)
    (hphase : Phase m c since i name d callback t e calls runs) (hone : m.stack.length = 1)
    {args : List Value} (hnow : t'.now = t.now)
    (hat : (e.burst name).runsAtOnce d.trigger = false)
    (hburst : e'.burst name =
      { (e.burst name).record d.trigger args with pending := some ⟨t.nextSource⟩ })
    (hstarting : (m.step client).starting i name = m.starting i name)
    (hwaits : (m.step client).world.Waits c (t.timer i name d callback)) :
    Phase (m.step client) c since i name d callback t' e' (calls ++ [⟨t.now, args⟩]) runs := by
  obtain ⟨hnone, hout⟩ := h.outside hone
  have hahead : t'.now < (t.timer i name d callback).readyAt := by
    show t'.now < t.now + d.interval
    omega
  cases hphase with
  | idle hb hst hsettled hruns =>
      rw [hb] at hat hburst
      have hleading : d.trigger.isLeading = false := by
        unfold Burst.runsAtOnce at hat
        rwa [show ({} : Burst).pending.isNone = true from rfl, Bool.and_true] at hat
      refine .armed calls ⟨t.now, args⟩ [] (t.timer i name d callback) ?_
      refine
        { split := rfl
          latest := .single hsettled
          called := Nat.le_of_eq hnow.symm
          covers := ?_
          ended := ?_
          runs := ?_
          burst := hburst.trans (d.openBurst_of_call hleading _ ⟨t.now, args⟩)
          starting := hstarting.trans hst
          waits := hwaits
          since := h.next
          kind := rfl
          work := rfl
          ready := rfl
          ahead := .inl hahead }
      · intro x hx
        rcases List.mem_append.mp hx with hx | hx
        · exact Nat.le_trans (hsettled x hx) (Nat.le_add_right _ _)
        · rw [List.mem_singleton.mp hx]
          exact Nat.le_refl _
      · rw [hnow]
        exact hsettled
      · unfold Debounce.opening
        rw [hnow, hruns, hleading]
        simp
  | leading past first _ _ hst _ _ _ _ => cases hnone.symm.trans hst
  | armed past first rest s ha =>
      have hsoon : t.now < (rest.getLastD first).time + d.interval := by
        rw [← ha.ready]
        exact ha.ahead.resolve_right hout
      refine .armed past first (rest ++ [⟨t.now, args⟩]) (t.timer i name d callback) ?_
      refine
        { split := ?_
          latest := ha.latest.append hpos hsoon
          called := ?_
          covers := ?_
          ended := ?_
          runs := ?_
          burst := ?_
          starting := hstarting.trans ha.starting
          waits := hwaits
          since := h.next
          kind := rfl
          work := rfl
          ready := ?_
          ahead := .inl hahead }
      · rw [ha.split, List.append_assoc]
        rfl
      · rw [List.getLastD_concat]
        exact Nat.le_of_eq hnow.symm
      · intro x hx
        rcases List.mem_append.mp hx with hx | hx
        · have hcovered := ha.covers x hx
          rw [ha.ready] at hcovered
          exact Nat.le_trans hcovered (Nat.add_le_add_right ha.called d.interval)
        · rw [List.mem_singleton.mp hx]
          exact Nat.le_refl _
      · rw [hnow]
        exact ha.ended
      · rw [hnow, ha.runs]
      · rw [hburst, ha.burst]
        exact d.record_openBurst s.id ⟨t.nextSource⟩ first ⟨t.now, args⟩ rest
      · rw [List.getLastD_concat]
        rfl

/-- After the run at its first call, the timer of a burst is attached. -/
theorem phase_starts (hpos : 0 < d.interval) (h : Watched client m c since i name d callback t e)
    (hphase : Phase m c since i name d callback t e calls runs) {debounce : Debounce} {f : β}
    (hnow : t'.now = t.now)
    (hburst : e'.burst name = { e.burst name with pending := some ⟨t.nextSource⟩ })
    (hstarting : m.starting i name =
      .startInterval i name debounce f :: (m.step client).starting i name)
    (hwaits : (m.step client).world.Waits c (t.timer i name debounce f)) :
    Phase (m.step client) c since i name d callback t' e' calls runs := by
  cases hphase with
  | idle _ hst _ _ => cases hst.symm.trans hstarting
  | armed past first rest s ha => cases ha.starting.symm.trans hstarting
  | leading past first hat hb hst hcalls htime hpast hruns =>
      obtain ⟨hframe, hrest⟩ := List.cons.inj (hst.symm.trans hstarting)
      cases hframe
      refine .armed past first [] (t.timer i name d callback) ?_
      refine
        { split := hcalls
          latest := .single (htime ▸ hpast)
          called := ?_
          covers := ?_
          ended := ?_
          runs := ?_
          burst := ?_
          starting := hrest.symm
          waits := hwaits
          since := h.next
          kind := rfl
          work := rfl
          ready := ?_
          ahead := .inl ?_ }
      · rw [hnow]
        exact Nat.le_of_eq htime
      · intro x hx
        rw [hcalls] at hx
        rcases List.mem_append.mp hx with hx | hx
        · exact Nat.le_trans (hpast x hx) (Nat.le_add_right _ _)
        · rw [List.mem_singleton.mp hx, htime]
          exact Nat.le_refl _
      · rw [hnow]
        exact hpast
      · rw [hnow, hruns]
      · rw [hburst, hb]
        exact d.openBurst_of_run hat ⟨t.nextSource⟩ first
      · show t.now + d.interval = first.time + d.interval
        rw [htime]
      · show t'.now < t.now + d.interval
        omega

/-- The timer on record is the one that waits for the end of the open burst. -/
theorem Phase.timer (h : Watched client m c since i name d callback t e)
    (hphase : Phase m c since i name d callback t e calls runs) {s : Source β}
    (hs : s ∈ t.sources) (hpending : (e.burst name).pending = some s.id) :
    ∃ past first rest, ∃ r : Source β,
      Armed m c since i name d callback t e calls runs past first rest r ∧
        s.id = r.id ∧ s.kind = r.kind ∧ s.work = r.work ∧ s.readyAt = r.readyAt := by
  cases hphase with
  | idle hb _ _ _ =>
      rw [hb] at hpending
      cases hpending
  | leading past first _ hb _ _ _ _ _ =>
      rw [hb] at hpending
      cases hpending
  | armed past first rest r ha =>
      rw [ha.burst] at hpending
      have hsources := (h.reachable.desk c).present t h.serves.timetable
      obtain ⟨u, hu, q, hq, hid, hkind, hwork, hready, -⟩ := ha.waits
      obtain rfl := Option.some.inj (h.serves.timetable.symm.trans hu)
      obtain rfl := hsources.eq_of_id hq hs (hid.trans (Option.some.inj hpending))
      exact ⟨past, first, rest, r, ha, hid, hkind, hwork, hready⟩

/-- At the end of a burst its timer starts, right on time, and runs the call that waits. -/
theorem phase_ends (h : Watched client m c since i name d callback t e)
    (hphase : Phase m c since i name d callback t e calls runs) {s : Source β}
    (hs : s ∈ t.sources) (hwaiting : s.id ∈ (m.desk c).waiting)
    (hpending : (e.burst name).pending = some s.id) {trigger : Trigger} {f : β}
    (hwork : s.work = .endOfBurst i name trigger f) (hnow : t'.now = t.now)
    (hburst : e'.burst name = ((e.burst name).finish trigger).1)
    (hrun : (m.step client).runOf c i name =
      (((e.burst name).finish trigger).2.map fun args => Timed.mk t.now args).toList)
    (hstarting : (m.step client).starting i name = m.starting i name) :
    f = callback ∧ Phase (m.step client) c since i name d callback t' e' calls
      (runs ++ (m.step client).runOf c i name) := by
  obtain ⟨past, first, rest, r, ha, hid, hkind, hsame, hready⟩ := hphase.timer h hs hpending
  rw [ha.work, hwork] at hsame
  cases hsame
  have hdue : t.now = (rest.getLastD first).time + d.interval := by
    have hidle : s.kind.isIdle = false := by
      rw [hkind, ha.kind]
      rfl
    obtain ⟨-, hwhen⟩ := h.clockwork.timely t h.serves.timetable s hs (hid ▸ ha.since) hidle
    rw [← ha.ready, ← hready, hwhen hwaiting]
  rw [ha.burst, d.finish_openBurst] at hburst hrun
  refine ⟨rfl, .idle hburst (hstarting.trans ha.starting) ?_ ?_⟩
  · rw [hnow, hdue, ← ha.ready]
    exact ha.covers
  · rw [hnow, ha.split, ha.latest.reference, hrun, ha.runs, List.append_assoc, hdue, d.runsOf_end]
    congr 2
    split <;> rfl

/-- A step leads from phase to phase, and runs of the method are runs of its callback. -/
theorem phase_step (hpos : 0 < d.interval) (h : Watched client m c since i name d callback t e)
    (h' : Watched client (m.step client) c since i name d callback t' e')
    (hphase : Phase m c since i name d callback t e calls runs)
    (hcalls : m.callOf c i name ≠ [] → m.stack.length = 1)
    (hremove : ∀ id, m.control = .perform (.removeSource c id) →
      (e.burst name).pending ≠ some id) :
    Phase (m.step client) c since i name d callback t' e' (calls ++ m.callOf c i name)
        (runs ++ (m.step client).runOf c i name) ∧
      ((m.step client).runOf c i name ≠ [] →
        ∀ f inv, (m.step client).control = .invoke f inv → f = callback) := by
  have houtside {args : List Value} (hcall : m.callOf c i name = [⟨t.now, args⟩]) :
      m.stack.length = 1 :=
    hcalls (by rw [hcall]; exact List.cons_ne_nil _ _)
  cases service_step h.reachable h.serves h'.serves hremove with
  | keeps hcall hrun hburst hstarting hwaits =>
      refine ⟨?_, fun hne => absurd hrun hne⟩
      rw [hcall, hrun, List.append_nil, List.append_nil]
      exact phase_keeps h h' hphase hburst hstarting hwaits
  | runs args hcall hrun hbody hnow hat hburst hstarting =>
      refine ⟨?_, fun _ => hbody⟩
      rw [hcall, hrun]
      exact phase_runs h hphase (houtside hcall) hnow hat hburst hstarting
  | delays args hcall hrun hnow hat hburst hstarting hwaits =>
      refine ⟨?_, fun hne => absurd hrun hne⟩
      rw [hcall, hrun, List.append_nil]
      exact phase_delays hpos h hphase (houtside hcall) hnow hat hburst hstarting hwaits
  | starts debounce f hcall hrun hnow hburst hstarting hwaits =>
      refine ⟨?_, fun hne => absurd hrun hne⟩
      rw [hcall, hrun, List.append_nil, List.append_nil]
      exact phase_starts hpos h hphase hnow hburst hstarting hwaits
  | ends s hcall hs hidle hwaiting hpending trigger f hwork hnow hburst hrun hbody hstarting =>
      obtain ⟨rfl, hphase'⟩ :=
        phase_ends h hphase hs hwaiting hpending hwork hnow hburst hrun hstarting
      rw [hcall, List.append_nil]
      exact ⟨hphase', fun _ => hbody⟩

/-- When the program is in control, the method has run as it should. -/
theorem Phase.runs_eq (h : Watched client m c since i name d callback t e)
    (hphase : Phase m c since i name d callback t e calls runs) (hone : m.stack.length = 1) :
    runs = d.reference t.now calls := by
  obtain ⟨hnone, hout⟩ := h.outside hone
  cases hphase with
  | idle _ _ _ hruns => exact hruns
  | leading past first _ _ hst _ _ _ _ => cases hnone.symm.trans hst
  | armed past first rest s ha =>
      have hlt : t.now < (rest.getLastD first).time + d.interval := by
        rw [← ha.ready]
        exact ha.ahead.resolve_right hout
      rw [ha.split, ha.latest.reference, d.runsOf_of_lt hlt, ha.runs]

end Phase

/-! ## Along a run -/

/-- Where the program is in control, the clock has its order. -/
theorem Clockwork.outside {client : Client σ β κ} {m : Machine σ β κ} (hreach : Reachable client m)
    (hone : m.stack.length = 1) {c : ContextId} {t : Timetable β}
    (ht : m.world.timetable? c = some t) : Clockwork c t.nextSource m := by
  obtain ⟨rest, inv, hs⟩ := hreach.outside hone
  refine ⟨?_, ?_, ?_, ?_⟩
  · rw [hs]
    exact ⟨.of_callback rest inv id, trivial⟩
  · rw [hs]
    intro command _ _ f hf
    rw [List.mem_singleton] at hf
    cases hf
  · rw [hs]
    trivial
  · intro u hu s hmem hsince
    obtain rfl := Option.some.inj (ht.symm.trans hu)
    have := ((hreach.desk c).present t ht).fresh s hmem
    omega

/-- As long as the instance lives, its method stays watched. -/
theorem Watched.step {client : Client σ β κ} {m : Machine σ β κ} {c : ContextId} {since : Nat}
    {i : InstanceId} {name : String} {d : Debounce} {callback : β} {t : Timetable β} {e : Duties β}
    (h : Watched client m c since i name d callback t e)
    (hnest : (m.step client).nestsClock c = false)
    (halive : ∃ x, (m.step client).world.instance? i = some x ∧ x.disposed = false) :
    ∃ t' e', Watched client (m.step client) c since i name d callback t' e' := by
  have hmove := (turn_step client m).desk c
  obtain ⟨t', ht', hcontinues⟩ := hmove.continues (h.reachable.desk c) h.serves.timetable
  obtain ⟨u, hu, hconfig⟩ := hmove.config h.serves.timetable
  obtain rfl := Option.some.inj (ht'.symm.trans hu)
  obtain ⟨x, hx, hd⟩ := halive
  have hduties := World.duties?_eq hx
  refine ⟨t', x.duties, ?_⟩
  rcases (turn_step client m).ages.ages i x.duties hduties with ⟨e₀, he₀, hages⟩ | hge
  · obtain rfl := Option.some.inj (h.serves.duties.symm.trans he₀)
    refine
      { reachable := h.reachable.step
        clockwork := h.clockwork.step client (h.reachable.desk c) h.manual_all hnest
        manual := ?_
        next := Nat.le_trans h.next hcontinues.next
        serves := ⟨ht', hduties, ?_, ?_, hd⟩ }
    · rw [hconfig]
      exact h.manual
    · rw [hages.context]
      exact h.serves.context
    · rw [hages.ofClass]
      exact h.serves.method
  · have := h.reachable.tracked.created i e h.serves.duties
    omega

namespace Machine

variable (client : Client σ β κ) (m : Machine σ β κ) (c : ContextId) (i : InstanceId)
  (name : String)

/-- The calls of a method in the first steps of a run. -/
def calls : Nat → List Timed
  | 0 => []
  | n + 1 => calls n ++ (m.after client n).callOf c i name

/-- The runs of a method that the first steps of a run begin. -/
def runs : Nat → List Timed
  | 0 => []
  | n + 1 => runs n ++ (m.after client (n + 1)).runOf c i name

/-- A run in which the clock of a context is moved and a debounced method is called by the program
only, and in which neither the instance nor a timer of the method is taken away. -/
structure Undisturbed (n : Nat) : Prop where
  clock : ∀ k, k ≤ n → (m.after client k).nestsClock c = false
  calls : ∀ k, k < n → (m.after client k).callOf c i name ≠ [] → (m.after client k).stack.length = 1
  alive : ∀ k, k ≤ n → ∃ x, (m.after client k).world.instance? i = some x ∧ x.disposed = false
  timer : ∀ k, k < n → ∀ id x, (m.after client k).control = .perform (.removeSource c id) →
    (m.after client k).world.instance? i = some x → (x.burst name).pending ≠ some id

end Machine

/-- **Debouncing is exact.** From any moment at which the program is in control and no burst of a
debounced method is open, the method runs just as its own calls and the clock say, and what runs is
its callback. -/
theorem debouncing_exact (client : Client σ β κ) {m : Machine σ β κ} (hreach : Reachable client m)
    (hone : m.stack.length = 1) {c : ContextId} {y : MainContext β}
    (hy : m.world.context? c = some y) (hmanual : y.config.clock = .manual) {i : InstanceId}
    {x : Instance β} (hx : m.world.instance? i = some x) (hcontext : x.context = c) {name : String}
    {d : Debounce} {callback : β}
    (hmethod : x.ofClass.findMethod? name = some ⟨callback, some d⟩) (hpos : 0 < d.interval)
    (hidle : x.burst name = {}) {n : Nat} (hrun : m.Undisturbed client c i name n)
    (hend : (m.after client n).stack.length = 1) :
    m.runs client c i name n =
        d.reference ((m.after client n).time c) (m.calls client c i name n) ∧
      ∀ k, k < n → (m.after client (k + 1)).runOf c i name ≠ [] →
        ∀ f inv, (m.after client (k + 1)).control = .invoke f inv → f = callback := by
  have ht := World.timetable?_eq hy
  -- the phase of the method is known all along
  have hphases : ∀ k, k ≤ n →
      (∃ t e, Watched client (m.after client k) c y.timetable.nextSource i name d callback t e ∧
        Phase (m.after client k) c y.timetable.nextSource i name d callback t e
          (m.calls client c i name k) (m.runs client c i name k)) ∧
      ∀ j, j < k → (m.after client (j + 1)).runOf c i name ≠ [] →
        ∀ f inv, (m.after client (j + 1)).control = .invoke f inv → f = callback := by
    intro k hk
    induction k with
    | zero =>
        obtain ⟨x', hx', halive⟩ := hrun.alive 0 (Nat.zero_le n)
        obtain rfl := Option.some.inj (hx.symm.trans hx')
        have hwatched : Watched client m c y.timetable.nextSource i name d callback y.timetable
            x.duties :=
          { reachable := hreach
            clockwork := .outside hreach hone ht
            manual := hmanual
            next := Nat.le_refl _
            serves := ⟨ht, World.duties?_eq hx, hcontext, hmethod, halive⟩ }
        refine ⟨⟨y.timetable, x.duties, hwatched, ?_⟩, fun j hj => absurd hj (Nat.not_lt_zero j)⟩
        exact .idle hidle (hwatched.outside hone).1 (fun _ hin => (by cases hin)) rfl
    | succ k ih =>
        obtain ⟨⟨t, e, hwatched, hphase⟩, hbodies⟩ := ih (Nat.le_of_succ_le hk)
        obtain ⟨t', e', hwatched'⟩ := hwatched.step (hrun.clock (k + 1) hk) (hrun.alive (k + 1) hk)
        obtain ⟨hphase', hbody⟩ := phase_step hpos hwatched hwatched' hphase (hrun.calls k hk)
          fun id hm => by
            obtain ⟨z, hz, rfl⟩ := Option.map_eq_some_iff.mp hwatched.serves.duties
            exact hrun.timer k hk id z hm hz
        refine ⟨⟨t', e', hwatched', hphase'⟩, fun j hj => ?_⟩
        rcases Nat.lt_or_eq_of_le (Nat.le_of_lt_succ hj) with hlt | rfl
        · exact hbodies j hlt
        · exact hbody
  obtain ⟨⟨t, e, hwatched, hphase⟩, hbodies⟩ := hphases n (Nat.le_refl n)
  refine ⟨?_, hbodies⟩
  rw [Machine.time_eq hwatched.serves.timetable]
  exact hphase.runs_eq hwatched hend

/-- A program that calls a debounced method twice in a row and then advances the clock past the end
of the burst. -/
def caller : Client Unit Nat (Routine Nat) :=
  .ofRoutines
    (fun
      | 0 => { acts := [.command (.newContext { clock := .manual }),
          .command (.construct
            { ofClass := .simple
                (NameTable.empty.insert "save" ⟨1, some { interval := 10, trigger := .leadingTrailing }⟩)
                [] none
              context := ⟨0⟩ }),
          .command (.call ⟨1⟩ "save" [.bool false]), .command (.advance ⟨0⟩ 4),
          .command (.call ⟨1⟩ "save" [.bool true]), .command (.advance ⟨0⟩ 20)] }
      | _ => {})
    [.object ⟨1⟩]

/-- Whether a source is about to be removed. -/
def Machine.removes (m : Machine σ β κ) : Bool :=
  match m.control with
  | .perform (.removeSource _ _) => true
  | _ => false

set_option maxRecDepth 100000 in
/-- The method of `caller` runs at once, and again an interval after its second call. -/
theorem debouncing_exact_caller :
    let m : Machine Unit Nat (Routine Nat) := (Machine.initial () 0).after caller 7
    m.Undisturbed caller ⟨0⟩ ⟨1⟩ "save" 29 ∧
      m.calls caller ⟨0⟩ ⟨1⟩ "save" 29 = [⟨0, [.bool false]⟩, ⟨4, [.bool true]⟩] ∧
      m.runs caller ⟨0⟩ ⟨1⟩ "save" 29 = [⟨0, [.bool false]⟩, ⟨14, [.bool true]⟩] := by
  intro m
  have hreach : Reachable caller m := (Reachable.initial () 0).after 7
  have hclock : (m.world.context? ⟨0⟩).map (·.config.clock) = some .manual := by decide +kernel
  have halive : ∀ k, k ≤ 29 →
      ((m.after caller k).world.instance? ⟨1⟩).map (·.disposed) = some false := by decide +kernel
  have hcontext : (m.world.instance? ⟨1⟩).map (·.context) = some ⟨0⟩ := by decide +kernel
  have hmethod : (m.world.instance? ⟨1⟩).bind (·.ofClass.findMethod? "save") =
      some ⟨1, some { interval := 10, trigger := .leadingTrailing }⟩ := by rfl
  have hidle : (m.world.instance? ⟨1⟩).map (·.burst "save") = some {} := by rfl
  have hcalls : m.calls caller ⟨0⟩ ⟨1⟩ "save" 29 = [⟨0, [.bool false]⟩, ⟨4, [.bool true]⟩] := by
    decide +kernel
  have hremoves : ∀ k, k < 29 → (m.after caller k).removes = false := by decide +kernel
  obtain ⟨y, hy, hmanual⟩ := Option.map_eq_some_iff.mp hclock
  obtain ⟨x, hx, hd⟩ := Option.map_eq_some_iff.mp (halive 0 (Nat.zero_le 29))
  have hx : m.world.instance? ⟨1⟩ = some x := hx
  rw [hx] at hcontext hmethod hidle
  have hrun : m.Undisturbed caller ⟨0⟩ ⟨1⟩ "save" 29 :=
    { clock := by decide +kernel
      calls := by decide +kernel
      alive := fun k hk => by
        obtain ⟨z, hz, hd⟩ := Option.map_eq_some_iff.mp (halive k hk)
        exact ⟨z, hz, hd⟩
      timer := fun k hk id z hm => by
        have := hremoves k hk
        unfold Machine.removes at this
        rw [hm] at this
        cases this }
  obtain ⟨hruns, -⟩ := debouncing_exact caller hreach (by decide +kernel) hy hmanual hx
    (Option.some.inj hcontext) hmethod (by decide) (Option.some.inj hidle) hrun (by decide +kernel)
  refine ⟨hrun, hcalls, ?_⟩
  rw [hruns, hcalls]
  decide +kernel

end ObjectSystem
