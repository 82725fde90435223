import ObjectSystem.Proofs.Overtaking

/-!
# Collected timeouts are due

An iteration collects timeouts whose deadline has passed, but they have their turn later, and by
then callbacks may have moved the clock: a nested advance that overtakes an outer one is followed by
the outer one putting the clock back. A timeout that waits for its turn is due nevertheless.

The clock is only put back to the target of an advance that stands above whatever was collected
before it began. So the invariant goes down the stack (`Collected`): what an iteration still has to
run is due at the present time and at the target of every advance above it.
-/

namespace ObjectSystem

variable {σ β κ : Type}

open Machine (marks Reachable)

/-! ## The invariant -/

/-- The sources of a context that a place on the stack still has to run. -/
def Layer.waiting (c : ContextId) : Layer β κ → List SourceId
  | .callback _ _ => []
  | .operation f => f.waiting c

/-- Every collected source is due at a time and at the targets of the advances above it. -/
def Collected (c : ContextId) (due : SourceId → Nat → Prop) : Nat → List (Layer β κ) → Prop
  | _, [] => True
  | time, layer :: stack =>
    (∀ id ∈ layer.waiting c, due id time) ∧
      Collected c due ((layer.target? c).elim time (min time)) stack

/-- Whether a source, if it is an attached timeout, has its deadline at a time or before. -/
def Machine.Due (m : Machine σ β κ) (c : ContextId) (id : SourceId) (time : Nat) : Prop :=
  ∀ s, m.source? c id = some s → s.kind.isIdle = false → s.readyAt ≤ time

theorem Machine.waiting_desk (m : Machine σ β κ) (c : ContextId) :
    (m.desk c).waiting = m.stack.flatMap (Layer.waiting c) := by
  show (marks m.stack).flatMap (·.waiting c) = _
  induction m.stack with
  | nil => rfl
  | cons layer stack ih =>
      cases layer with
      | callback rest inv => exact ih
      | operation f =>
          rw [Machine.marks_operation, List.flatMap_cons, ← ih]
          cases hmark : f.isMark with
          | true => rfl
          | false => cases f <;> first | rfl | cases hmark

namespace Collected

variable {c : ContextId} {due due' : SourceId → Nat → Prop} {stack : List (Layer β κ)}

theorem mono {time time' : Nat} (h : Collected c due time stack) (hle : time ≤ time')
    (hdue : ∀ id ∈ stack.flatMap (Layer.waiting c), ∀ t t', t ≤ t' → due id t → due' id t') :
    Collected c due' time' stack := by
  induction stack generalizing time time' with
  | nil => trivial
  | cons layer stack ih =>
      obtain ⟨htop, hrest⟩ := h
      rw [List.flatMap_cons] at hdue
      refine ⟨fun id hid => hdue id (List.mem_append_left _ hid) _ _ hle (htop id hid), ?_⟩
      refine ih hrest ?_ fun id hid => hdue id (List.mem_append_right _ hid)
      cases layer.target? c with
      | none => exact hle
      | some target =>
          show min time target ≤ min time' target
          omega

theorem of_all {time : Nat} (h : ∀ id time, due id time) : Collected c due time stack := by
  induction stack generalizing time with
  | nil => trivial
  | cons layer stack ih => exact ⟨fun id _ => h id time, ih⟩

/-- New layers without targets stand at the present time. -/
theorem push {time : Nat} {new : List (Layer β κ)} (h : Collected c due time stack)
    (htarget : ∀ layer ∈ new, layer.target? c = none)
    (hnew : ∀ id ∈ new.flatMap (Layer.waiting c), due id time) :
    Collected c due time (new ++ stack) := by
  induction new with
  | nil => exact h
  | cons layer new ih =>
      rw [List.flatMap_cons] at hnew
      refine ⟨fun id hid => hnew id (List.mem_append_left _ hid), ?_⟩
      rw [htarget layer List.mem_cons_self]
      exact ih (fun l hl => htarget l (List.mem_cons_of_mem _ hl))
        fun id hid => hnew id (List.mem_append_right _ hid)

/-- Layers without targets, and those below. -/
theorem pop {time : Nat} {top : List (Layer β κ)} (h : Collected c due time (top ++ stack))
    (htarget : ∀ layer ∈ top, layer.target? c = none) :
    Collected c due time stack ∧ ∀ id ∈ top.flatMap (Layer.waiting c), due id time := by
  induction top with
  | nil => exact ⟨h, fun id hid => (by cases hid)⟩
  | cons layer top ih =>
      obtain ⟨htop, hrest⟩ := h
      rw [htarget layer List.mem_cons_self] at hrest
      obtain ⟨hstack, hbelow⟩ := ih hrest fun l hl => htarget l (List.mem_cons_of_mem _ hl)
      refine ⟨hstack, fun id hid => ?_⟩
      rw [List.flatMap_cons, List.mem_append] at hid
      exact hid.elim (htop id) (hbelow id)

theorem due_of_mem {time : Nat} (h : Collected c due time stack)
    (hdue : ∀ id t t', t ≤ t' → due id t → due id t') {id : SourceId}
    (hid : id ∈ stack.flatMap (Layer.waiting c)) : due id time := by
  induction stack generalizing time with
  | nil => cases hid
  | cons layer stack ih =>
      obtain ⟨htop, hrest⟩ := h
      rw [List.flatMap_cons, List.mem_append] at hid
      rcases hid with hid | hid
      · exact htop id hid
      · refine hdue id _ _ ?_ (ih hrest hid)
        cases layer.target? c with
        | none => exact Nat.le_refl _
        | some target => exact Nat.min_le_left _ _

end Collected

/-! ## One step -/

namespace Desk

/-- A source that waits for its turn, or would be collected now. -/
def Lists (d : Desk β) (id : SourceId) : Prop :=
  id ∈ d.waiting ∨ ∃ t, d.timetable = some t ∧ id ∈ t.ready

/-- What waits for its turn above some part of the stack waited there before, or has just been
collected. -/
theorem Move.waits {ticking : Prop} {d d' : Desk β} (hm : Move ticking d d')
    {top new rest : List SourceId} (hw : d.waiting = top ++ rest) (hw' : d'.waiting = new ++ rest) :
    ∀ id ∈ new, id ∈ top ∨ ∃ t, d.timetable = some t ∧ id ∈ t.ready := by
  have same (h : d'.waiting = d.waiting) : ∀ id ∈ new, id ∈ top ∨
      ∃ t, d.timetable = some t ∧ id ∈ t.ready := by
    rw [hw, hw'] at h
    exact fun id hid => .inl (List.append_cancel_right h ▸ hid)
  have fewer {id : SourceId} (h : d.waiting = id :: d'.waiting) : ∀ id ∈ new, id ∈ top ∨
      ∃ t, d.timetable = some t ∧ id ∈ t.ready := by
    rw [hw, hw', ← List.cons_append] at h
    exact fun id hid => .inl (List.append_cancel_right h ▸ List.mem_cons_of_mem _ hid)
  cases hm with
  | edits ht h hr => exact same h
  | opens config ht ht' h hr => exact same h
  | drops ht ht' h hr =>
      obtain ⟨above, habove⟩ := h
      rw [hw, hw', ← List.append_assoc] at habove
      exact fun id hid => .inl (List.append_cancel_right habove ▸ List.mem_append_right _ hid)
  | ticks t now htick ht ht' h hr => exact same h
  | collects t ht ht' h hr =>
      rw [hw, hw', ← List.append_assoc] at h
      intro id hid
      rw [List.append_cancel_right h, List.mem_append] at hid
      rcases hid with hready | hid
      · exact .inr ⟨t, ht, hready⟩
      · exact .inl hid
  | skips t id ht ht' hid h hr => exact fewer h
  | begins t id s ht ht' hs hrun h hr => exact fewer h
  | ends t id mayStay stays hstay ht ht' h hr => exact same h

/-- Of the timeouts that are collected now, none runs and all have passed their deadline. -/
theorem Sound.of_mem_ready {d : Desk β} (h : d.Sound) {t : Timetable β} (ht : d.timetable = some t)
    {id : SourceId} (hid : id ∈ t.ready) : ∃ s, t.source? id = some s ∧
      (s.kind.isIdle = false → s.running = false ∧ s.readyAt ≤ t.now) := by
  obtain ⟨s, hs, hcollects, rfl⟩ := Timetable.collects_of_mem_ready hid
  refine ⟨s, h.source?_of_mem ht hs, fun hkind => ?_⟩
  obtain ⟨⟨-, hdue⟩, hrun⟩ := hcollects.due hkind
  exact ⟨hrun, hdue⟩

/-- A timeout that waits for its turn or would be collected does not run. -/
theorem Sound.not_running_of_lists {d : Desk β} (h : d.Sound) {t : Timetable β}
    (ht : d.timetable = some t) {s : Source β} (hs : s ∈ t.sources) (hkind : s.kind.isIdle = false)
    (hid : d.Lists s.id) : s.running = false := by
  rcases hid with hwait | ⟨u, hu, hready⟩
  · have hphase := (h.present t ht).phase s hs hkind
    have hcount : 0 < d.waiting.count s.id := List.count_pos_iff.mpr hwait
    cases hrun : s.running with
    | false => rfl
    | true =>
        rw [hrun, Bool.toNat_true] at hphase
        omega
  · obtain rfl := Option.some.inj (ht.symm.trans hu)
    obtain ⟨r, hr, hfacts⟩ := h.of_mem_ready ht hready
    rw [h.source?_of_mem ht hs] at hr
    obtain rfl := Option.some.inj hr
    exact (hfacts hkind).1

theorem Sound.lt_of_lists {d : Desk β} (h : d.Sound) {t : Timetable β} (ht : d.timetable = some t)
    {id : SourceId} (hid : d.Lists id) : id.number < t.nextSource := by
  rcases hid with hwait | ⟨u, hu, hready⟩
  · exact (h.present t ht).waits_lt id hwait
  · obtain rfl := Option.some.inj (ht.symm.trans hu)
    obtain ⟨s, hs, -, rfl⟩ := Timetable.collects_of_mem_ready hready
    exact (h.present t ht).fresh s hs

end Desk

section Step

variable (client : Client σ β κ) {m : Machine σ β κ} {c : ContextId}

/-- A timeout that waits for its turn, or is collected with this step, keeps its deadline. -/
theorem Machine.Due.step (hsound : (m.desk c).Sound) {id : SourceId} (hid : (m.desk c).Lists id)
    {time time' : Nat} (hle : time ≤ time') (h : m.Due c id time) :
    (m.step client).Due c id time' := by
  intro s' hs' hkind
  obtain ⟨t', ht', hfound'⟩ := Machine.timetable_of_source? hs'
  obtain ⟨hmem', rfl⟩ := Timetable.mem_of_source? hfound'
  have hmove := (turn_step client m).desk c
  cases ht : m.world.timetable? c with
  | none =>
      rw [hmove.fresh ht ht'] at hmem'
      cases hmem'
  | some t =>
      have kept {s : Source β} (hs : t.source? s'.id = some s) (hk : s'.kind = s.kind)
          (hready : s'.readyAt = s.readyAt) : s'.readyAt ≤ time' := by
        rw [hready]
        exact Nat.le_trans (h s ((Machine.source?_eq ht _).trans hs) (hk ▸ hkind)) hle
      cases hmove.fate hsound ht ht' hmem' with
      | fresh hs hnew hrun hready =>
          have hlt := hsound.lt_of_lists ht hid
          omega
      | kept s hs hk hwork hready hrun => exact kept hs hk hready
      | started s hs hk hwork hready hold hrun hwait => exact kept hs hk hready
      | rearmed s hs hk hwork hstay hold hrun hready =>
          obtain ⟨hmem, hsid⟩ := Timetable.mem_of_source? hs
          rw [hsound.not_running_of_lists ht hmem (hk ▸ hkind) (hsid ▸ hid)] at hold
          cases hold

theorem Machine.Due.mono {id : SourceId} {time time' : Nat} (hle : time ≤ time')
    (h : m.Due c id time) : m.Due c id time' :=
  fun s hs hkind => Nat.le_trans (h s hs hkind) hle

/-- What is collected now is due now. -/
theorem Machine.due_of_mem_ready (hsound : (m.desk c).Sound) {t : Timetable β}
    (ht : m.world.timetable? c = some t) {id : SourceId} (hid : id ∈ t.ready) :
    m.Due c id (m.time c) := by
  intro s hs hkind
  obtain ⟨r, hr, hfacts⟩ := hsound.of_mem_ready ht hid
  rw [Machine.source?_eq ht] at hs
  obtain rfl := Option.some.inj (hr.symm.trans hs)
  rw [Machine.time_eq ht]
  exact (hfacts hkind).2

/-- The layers that a step leaves alone, at a time that is not before the one they stood at. -/
theorem Collected.step {time time' : Nat} {stack : List (Layer β κ)} (hsound : (m.desk c).Sound)
    (h : Collected c (m.Due c) time stack) (hle : time ≤ time') (hs : stack <:+ m.stack) :
    Collected c ((m.step client).Due c) time' stack := by
  refine h.mono hle fun id hid t t' htt' => Machine.Due.step client hsound (.inl ?_) htt'
  rw [Machine.waiting_desk]
  obtain ⟨above, habove⟩ := hs
  rw [← habove, List.flatMap_append]
  exact List.mem_append_right _ hid

/-- A step that replaces layers without targets by others of that kind, and does not set the clock
back. -/
theorem Collected.replace {top new stack : List (Layer β κ)} (hsound : (m.desk c).Sound)
    (h : Collected c (m.Due c) (m.time c) m.stack) (hs : m.stack = top ++ stack)
    (hs' : (m.step client).stack = new ++ stack) (htop : ∀ layer ∈ top, layer.target? c = none)
    (hnew : ∀ layer ∈ new, layer.target? c = none) (htime : m.time c ≤ (m.step client).time c) :
    Collected c ((m.step client).Due c) ((m.step client).time c) (m.step client).stack := by
  have hbelow : Collected c (m.Due c) (m.time c) stack ∧
      ∀ id ∈ top.flatMap (Layer.waiting c), m.Due c id (m.time c) := by
    rw [hs] at h
    exact h.pop htop
  rw [hs']
  refine (hbelow.1.step client hsound htime ⟨top, hs.symm⟩).push hnew fun id hid => ?_
  have hw := m.waiting_desk c
  have hw' := (m.step client).waiting_desk c
  rw [hs, List.flatMap_append] at hw
  rw [hs', List.flatMap_append] at hw'
  rcases ((turn_step client m).desk c).waits hw hw' id hid with hold | ⟨t, ht, hready⟩
  · refine (hbelow.2 id hold).step client hsound (.inl ?_) htime
    rw [hw]
    exact List.mem_append_left _ hold
  · exact (Machine.due_of_mem_ready hsound ht hready).step client hsound (.inr ⟨t, ht, hready⟩) htime

/-- What has been collected is due, on every level of the stack. -/
def Machine.InTime (m : Machine σ β κ) (c : ContextId) : Prop :=
  Collected c (m.Due c) (m.time c) m.stack

/-- A step that puts layers without targets on a stack. -/
theorem Machine.InTime.follows {top stack : List (Layer β κ)} {p : Progress β} (h : m.InTime c)
    (hsound : (m.desk c).Sound) (hs : m.stack = top ++ stack) (hf : (m.step client).Follows p stack)
    (htop : ∀ layer ∈ top, layer.target? c = none) (hnew : ∀ f ∈ p.frames, f.target? c = none)
    (htime : m.time c ≤ (m.step client).time c) : (m.step client).InTime c := by
  refine Collected.replace client hsound h hs hf.stack htop (fun layer hlayer => ?_) htime
  obtain ⟨f, hframe, rfl⟩ := List.mem_map.mp hlayer
  exact hnew f hframe

/-- An advance of the clock begins. -/
theorem Machine.InTime.advance {duration : Nat} (h : m.InTime c) (hsound : (m.desk c).Sound)
    (hm : m.control = .perform (.advance c duration)) {x : MainContext β}
    (hx : m.world.context? c = some x) : (m.step client).InTime c := by
  have hf := Machine.follows_perform client hm
  have htime : m.time c = x.now := Machine.time_eq (World.timetable?_eq hx)
  change (m.step client).Follows (m.world.advance c duration) m.stack at hf
  unfold World.advance at hf
  rw [hx] at hf
  cases hclock : x.config.clock with
  | manual =>
      -- the target of the new advance is ahead of everything
      simp only [hclock] at hf
      have hstands : (m.step client).time c = m.time c := by
        rw [time_eq_now, time_eq_now, hf.world.timetable]
        rfl
      unfold InTime
      rw [hf.stack, hstands]
      refine ⟨fun _ hid => (by cases hid), ?_⟩
      refine Collected.step client hsound h ?_ List.suffix_rfl
      have htarget : Frame.target? c (.advance c (x.now + duration) 0 .before : Frame β) =
          some (x.now + duration) := by
        simp [Frame.target?]
      rw [Layer.target?, htarget]
      exact Nat.le_min.mpr ⟨Nat.le_refl _, htime ▸ Nat.le_add_right _ _⟩
  | system =>
      simp only [hclock] at hf
      refine h.follows client hsound (List.nil_append _).symm hf (fun _ hl => (by cases hl))
        (fun _ hl => (by cases hl)) ?_
      rw [time_of_setTime client hf rfl (by simp [hx]), htime]
      exact Nat.le_add_right _ _

/-- An advance of the clock goes on. -/
theorem Machine.InTime.continueAdvance {target count : Nat} {stage : AdvanceStage} {reply : Reply β}
    {stack : List (Layer β κ)} (h : m.InTime c) (hsound : (m.desk c).Sound)
    (hm : m.control = .deliver reply)
    (hs : m.stack = .operation (.advance c target count stage) :: stack) {x : MainContext β}
    (hx : m.world.context? c = some x) : (m.step client).InTime c := by
  have hf := Machine.follows_resume client hm hs
  have htime : m.time c = x.now := Machine.time_eq (World.timetable?_eq hx)
  have hexists : m.world.context? c ≠ none := by simp [hx]
  have hgoes := World.advanceGoesOn hx target count stage reply
  have hbelow := h
  unfold InTime at hbelow
  rw [hs] at hbelow
  have hsuffix : stack <:+ m.stack := hs ▸ List.suffix_cons _ _
  change (m.step client).Follows (m.world.continueAdvance c target count stage reply) stack at hf
  generalize m.world.continueAdvance c target count stage reply = p at hf hgoes
  unfold InTime
  rw [hf.stack]
  cases hgoes with
  | steps now n hstage hle hmax =>
      rw [time_of_setTime client hf rfl hexists]
      refine ⟨fun _ hid => (by cases hid), Collected.step client hsound hbelow.2 ?_ hsuffix⟩
      simp only [Layer.target?, Frame.target?, Option.elim, hstage, ne_eq, not_false_eq_true,
        and_self, ↓reduceIte, htime, reduceCtorEq]
      omega
  | arrives n hstage =>
      -- whatever is below was due at the target already
      rw [time_of_setTime client hf rfl hexists]
      refine ⟨fun _ hid => (by cases hid), Collected.step client hsound hbelow.2 ?_ hsuffix⟩
      simp only [Layer.target?, Frame.target?, Option.elim, hstage, ne_eq, not_false_eq_true,
        and_self, ↓reduceIte, not_true_eq_false, and_false]
      omega
  | ends n hstage =>
      have hstands : (m.step client).time c = m.time c := by
        rw [time_eq_now, time_eq_now, hf.world.timetable]
        rfl
      rw [hstands]
      refine Collected.step client hsound hbelow.2 ?_ hsuffix
      simp [Layer.target?, Frame.target?, hstage]

theorem Machine.InTime.step (hsound : (m.desk c).Sound) (h : m.InTime c) :
    (m.step client).InTime c := by
  have plain (top new : List (Layer β κ)) {stack : List (Layer β κ)}
      (hw : World.Calm m.world (m.step client).world)
      (hs : m.stack = top ++ stack) (hs' : (m.step client).stack = new ++ stack)
      (htop : ∀ layer ∈ top, layer.target? c = none)
      (hnew : ∀ layer ∈ new, layer.target? c = none) : (m.step client).InTime c := by
    refine Collected.replace client hsound h hs hs' htop hnew (Nat.le_of_eq ?_)
    rw [time_eq_now, time_eq_now, hw.timetable]
  cases hx : m.world.context? c with
  | none =>
      -- a context that does not exist has no sources, and neither has one that was just created
      refine Collected.of_all fun id time s hs => ?_
      obtain ⟨t', ht', hfound⟩ := Machine.timetable_of_source? hs
      have hmem := (Timetable.mem_of_source? hfound).1
      rw [((turn_step client m).desk c).fresh (World.timetable?_eq_none.mpr hx) ht'] at hmem
      cases hmem
  | some x =>
      cases Machine.moved_step client m with
      | performs command hm hf =>
          by_cases hadvance : ∃ duration, command = .advance c duration
          · obtain ⟨duration, rfl⟩ := hadvance
            exact h.advance client hsound hm hx
          · have hnot := Machine.not_ticking_of_perform hm fun duration hc => hadvance ⟨duration, hc⟩
            exact h.follows client hsound (List.nil_append _).symm hf (fun _ hl => (by cases hl))
              (m.world.targetless_perform c fun duration hc => hadvance ⟨duration, hc⟩)
              (Nat.le_of_eq (time_step_of_not_ticking client hnot).symm)
      | resumes frame reply stack hm hs hf =>
          by_cases hadvance : ∃ target count stage, frame = .advance c target count stage
          · obtain ⟨target, count, stage, rfl⟩ := hadvance
            exact h.continueAdvance client hsound hm hs hx
          · have hframe : ∀ target count stage, frame ≠ .advance c target count stage :=
              fun target count stage hc => hadvance ⟨target, count, stage, hc⟩
            have hnot := Machine.not_ticking_of_deliver hm hs hframe
            have htop : frame.target? c = none := by
              cases frame with
              | advance d target count stage =>
                  have hd : d ≠ c := fun hd => hframe target count stage (by rw [hd])
                  simp [Frame.target?, hd]
              | _ => rfl
            have hs : m.stack = [.operation frame] ++ stack := hs
            refine h.follows client hsound hs hf (fun layer hl => ?_)
              (m.world.targetless_resume c reply hframe)
              (Nat.le_of_eq (time_step_of_not_ticking client hnot).symm)
            rw [List.mem_singleton.mp hl]
            exact htop
      | enters rest inv reply hm hw hs hc =>
          exact plain [] [.callback rest inv] hw rfl hs (by simp)
            (by simp [Layer.target?])
      | asks command rest rest' inv stack hw hs hs' hc =>
          exact plain [.callback rest inv] [.callback rest' inv] hw hs hs'
            (by simp [Layer.target?]) (by simp [Layer.target?])
      | goesOn reply rest rest' inv stack hw hs hs' hc =>
          exact plain [.callback rest inv] [.callback rest' inv] hw hs hs'
            (by simp [Layer.target?]) (by simp [Layer.target?])
      | leaves reply rest inv stack hw hs hs' hc hr =>
          exact plain [.callback rest inv] [] hw hs hs' (by simp [Layer.target?])
            (by simp)
      | rests reply hw hs hm hc => exact plain [] [] hw rfl hs (by simp) (by simp)

end Step

/-! ## Along a run -/

variable {client : Client σ β κ} {m : Machine σ β κ} {c : ContextId}

theorem Machine.Reachable.inTime (h : Reachable client m) (c : ContextId) : m.InTime c := by
  induction h with
  | initial state callback => trivial
  | step hreach ih => exact ih.step client (hreach.desk c)

/-- **A timeout that waits for its turn is due**, whatever callbacks have done to the clock. -/
theorem Machine.Reachable.due_of_waiting (h : Reachable client m) {id : SourceId}
    (hid : id ∈ (m.desk c).waiting) {s : Source β} (hs : m.source? c id = some s)
    (hkind : s.kind.isIdle = false) : s.readyAt ≤ m.time c := by
  rw [Machine.waiting_desk] at hid
  exact (h.inTime c).due_of_mem (fun _ _ _ hle hdue => hdue.mono hle) hid s hs hkind

end ObjectSystem
