import ObjectSystem.Proofs.Overtaking
import ObjectSystem.Proofs.Strides

/-!
# Clocks that pass no deadline

A manual clock only moves where an advance makes a stride, and a stride goes no further than the next
deadline. So a clock passes no deadline of a timeout in the queue, whoever advances it, and however
often it is advanced while an advance is in progress (`Reachable.punctual`).

An advance could miss a deadline if it went to its target after a run until idle in which nothing
ran. None does: every advance in progress, wherever it is on the stack, waits for a run until idle
that has something to do when the clock stands at a deadline (`Machine.Attentive`).
-/

namespace ObjectSystem

variable {σ β κ : Type}

open Machine (Reachable)

/-! ## Timetables -/

namespace Timetable

variable {t : Timetable β}

/-- No timeout in the queue has its deadline behind it. -/
def Punctual (t : Timetable β) : Prop :=
  ∀ s ∈ t.sources, t.Armed s → t.now ≤ s.readyAt

theorem Punctual.attach (h : t.Punctual) (kind : SourceKind) (priority : Priority)
    (work : SourceWork β) : (t.attach kind priority work).Punctual := by
  intro s hs harmed
  show t.now ≤ s.readyAt
  have hnew : t.now ≤ (t.fresh kind priority work).readyAt := Nat.le_add_right _ _
  rcases TimeoutQueue.mem_enter.mp harmed with ⟨-, hentry⟩ | harmed
  · have hready : s.readyAt = (t.fresh kind priority work).readyAt :=
      congrArg TimeoutEntry.readyAt hentry
    exact hready ▸ hnew
  · rcases List.mem_append.mp hs with hs | hs
    · exact h s hs harmed
    · exact List.mem_singleton.mp hs ▸ hnew

theorem Punctual.detach (h : t.Punctual) (id : SourceId) : (t.detach id).Punctual :=
  fun s hs => h s (List.mem_of_mem_filter hs)

theorem Punctual.edited (h : t.Punctual) {u : Timetable β} (he : t.Edited u) : u.Punctual := by
  induction he with
  | refl => exact h
  | attach _ kind priority work ih => exact ih.attach kind priority work
  | detach _ id ih => exact ih.detach id

theorem Punctual.collect (h : t.Punctual) : t.collect.Punctual :=
  fun s hs harmed => h s hs (TimeoutQueue.mem_afterDue.mp harmed).1

theorem Punctual.start (h : t.Punctual) (id : SourceId) : (t.start id).Punctual := by
  intro s hs harmed
  obtain ⟨r, hr, rfl⟩ := mem_modify.mp hs
  have hentry : (if r.id = id then { r with running := true } else r : Source β).entry = r.entry := by
    split <;> rfl
  rw [Armed, hentry] at harmed
  have hready := congrArg TimeoutEntry.readyAt hentry
  exact Nat.le_trans (h r hr harmed) (Nat.le_of_eq hready.symm)

/-- A source that stays is due again later, or it is an idle source as before. -/
theorem rearm_cases (now : Nat) (s : Source β) :
    now ≤ (MainContext.rearm now s).readyAt ∨
      (MainContext.rearm now s).kind.isIdle = true ∧ (MainContext.rearm now s).entry = s.entry := by
  unfold MainContext.rearm
  split
  · next hkind => exact .inr ⟨by rw [hkind]; rfl, rfl⟩
  · exact .inl (Nat.le_add_right _ _)

/-- What is in the queue of a source that stays was there before, or it is due later. -/
theorem armed_of_settle {id : SourceId} {s : Source β} (h : (t.settle id true).Armed s) :
    t.Armed s ∨ t.now ≤ s.readyAt := by
  unfold Armed settle at h
  rw [if_pos rfl] at h
  dsimp only at h
  split at h
  · exact .inl h
  · next r hr =>
      rcases TimeoutQueue.mem_enter.mp h with ⟨htimeout, hentry⟩ | h
      · have hready : s.readyAt = (MainContext.rearm t.now r).readyAt :=
          congrArg TimeoutEntry.readyAt hentry
        rcases rearm_cases t.now r with hle | ⟨hidle, -⟩
        · exact .inr (hready ▸ hle)
        · cases htimeout.symm.trans hidle
      · exact .inl h

theorem Punctual.settle (h : t.Punctual) (id : SourceId) (stays : Bool) :
    (t.settle id stays).Punctual := by
  cases stays with
  | false => exact h.detach id
  | true =>
      intro s hs harmed
      rw [now_settle]
      rcases armed_of_settle harmed with harmed | hle
      · obtain ⟨r, hr, rfl⟩ := mem_modify.mp (show s ∈ (t.modify id _).sources from hs)
        by_cases hid : r.id = id
        · rw [if_pos hid] at harmed ⊢
          rcases rearm_cases t.now r with hle | ⟨-, hentry⟩
          · exact hle
          · rw [Armed, hentry] at harmed
            have hready := congrArg TimeoutEntry.readyAt hentry
            exact Nat.le_trans (h r hr harmed) (Nat.le_of_eq hready.symm)
        · rw [if_neg hid] at harmed ⊢
          exact h r hr harmed
      · exact hle

end Timetable

/-- No move on a desk makes a timeout late, except that of a clock. -/
theorem Desk.Move.punctual {ticking : Prop} {d d' : Desk β} (hm : Move ticking d d')
    (h : ∀ t, d.timetable = some t → t.Punctual)
    (htick : ∀ t now, ticking → d.timetable = some t → d'.timetable = some { t with now } →
      ({ t with now } : Timetable β).Punctual) :
    ∀ t, d'.timetable = some t → t.Punctual := by
  intro u hu
  cases hm with
  | edits he hw hr =>
      rw [hu] at he
      cases ht : d.timetable with
      | none =>
          rw [ht] at he
          cases he
      | some t =>
          rw [ht] at he
          cases he with
          | some he => exact (h t ht).edited he
  | opens config hnone ht' hw hr =>
      obtain rfl := Option.some.inj (ht'.symm.trans hu)
      exact fun s hs => (by cases hs)
  | drops hnone ht' hw hr => cases ht'.symm.trans hu
  | ticks t now hticking ht ht' hw hr =>
      obtain rfl := Option.some.inj (ht'.symm.trans hu)
      exact htick t now hticking ht ht'
  | collects t ht ht' hw hr =>
      obtain rfl := Option.some.inj (ht'.symm.trans hu)
      exact (h t ht).collect
  | skips t id ht ht' hid hw hr =>
      obtain rfl := Option.some.inj (ht'.symm.trans hu)
      exact h t ht
  | begins t id s ht ht' hs hrun hw hr =>
      obtain rfl := Option.some.inj (ht'.symm.trans hu)
      exact (h t ht).start id
  | ends t id mayStay stays hstay ht ht' hw hr =>
      obtain rfl := Option.some.inj (ht'.symm.trans hu)
      exact (h t ht).settle id stays

/-- A stride goes no further than the next deadline. -/
theorem MainContext.punctual_stride {x : MainContext β} (hnodup : (x.sources.map (·.id)).Nodup)
    (h : x.timetable.Punctual) (target : Nat) :
    ({ x.timetable with now := (x.stride target).1 } : Timetable β).Punctual := by
  intro s hs harmed
  show (x.stride target).1 ≤ s.readyAt
  unfold stride
  split
  · next hnone => exact absurd harmed (not_armed_of_nextDeadline hnodup hnone hs)
  · next deadline hnext =>
      have hle : deadline ≤ s.readyAt := (nextDeadline_spec hnodup hnext).2 s hs harmed
      split
      · next hlt => exact Nat.le_trans (Nat.le_of_lt hlt) hle
      · exact Nat.max_le.mpr ⟨h s hs harmed, hle⟩

/-- A stride that ends at a deadline makes something pending. -/
theorem MainContext.pending_of_stride {x : MainContext β} {target : Nat}
    (h : (x.stride target).2 = .within) :
    ({ x with now := (x.stride target).1 } : MainContext β).pending = true := by
  by_cases hdue : ∃ deadline, x.nextDeadline = some deadline ∧ deadline ≤ target
  · obtain ⟨deadline, hnext, hle⟩ := hdue
    rw [stride_of_due hnext hle]
    exact pending_at_deadline hnext
  · rw [stride_of_none_due fun deadline hnext =>
      Nat.lt_of_not_le fun hle => hdue ⟨deadline, hnext, hle⟩] at h
    cases h

/-! ## Advances on the stack -/

namespace Machine

variable {client : Client σ β κ} {m : Machine σ β κ} {c : ContextId}

theorem Reachable.isTidy (hreach : Reachable client m) : m.isTidy client = true := by
  cases hreach with
  | initial state callback => rfl
  | step hreach => exact tidy_step client _

/-- Every advance of a context that has not reached its target waits for a run until idle. -/
def Attentive (m : Machine σ β κ) (c : ContextId) : Prop :=
  ∀ above target count stage base,
    m.stack = above ++ .operation (.advance c target count stage) :: base → stage ≠ .after →
      Waiting c stage above (.operation (.advance c target count stage) :: base) m

/-- What an advance on top of the stack hears. -/
theorem Attentive.heard (h : m.Attentive c) {target count : Nat} {stage : AdvanceStage}
    {base : List (Layer β κ)} (hs : m.stack = .operation (.advance c target count stage) :: base)
    (hstage : stage ≠ .after) {reply : Reply β} (hm : m.control = .deliver reply) :
    ∃ ran x, reply = .count ran ∧ (stage = .within → 0 < ran) ∧ m.world.context? c = some x := by
  cases h [] target count stage base hs hstage with
  | asks habove hc hdue => cases hm.symm.trans hc
  | drains hdrain => exact absurd hs (stack_ne_of_busy hdrain.length_lt)
  | hears ran habove hc hran x hx hidle =>
      exact ⟨ran, x, Control.deliver.inj (hm.symm.trans hc), hran, hx⟩

theorem Reachable.exists_of_advance (hreach : Reachable client m) {above base : List (Layer β κ)}
    {target count : Nat} {stage : AdvanceStage}
    (hs : m.stack = above ++ .operation (.advance c target count stage) :: base)
    (hstage : stage ≠ .after) : ∃ x, m.world.context? c = some x := by
  refine Option.ne_none_iff_exists'.mp (hreach.exists_of_targets fun hnone => ?_)
  have htarget := List.filterMap_eq_nil_iff.mp hnone (.operation (.advance c target count stage))
    (by rw [hs]; simp)
  simp [Layer.target?, Frame.target?, hstage] at htarget

/-- Where a step replaces the layers above an advance, the advance goes on waiting; or it is one of
the new layers. -/
theorem Attentive.kept (h : m.Attentive c) (hreach : Reachable client m)
    (old new rest : List (Layer β κ)) (hold : m.stack = old ++ rest)
    (hnew : (m.step client).stack = new ++ rest)
    (htop : old ≠ [] ∨ rest = [] ∨ ∀ reply, m.control ≠ .deliver reply)
    {above base : List (Layer β κ)} {target count : Nat} {stage : AdvanceStage}
    (hs : (m.step client).stack = above ++ .operation (.advance c target count stage) :: base)
    (hstage : stage ≠ .after) :
    Waiting c stage above (.operation (.advance c target count stage) :: base) (m.step client) ∨
      ∃ below, new = above ++ .operation (.advance c target count stage) :: below := by
  have goesOn (kept : List (Layer β κ))
      (hrest : rest = kept ++ .operation (.advance c target count stage) :: base) :
      Waiting c stage above (.operation (.advance c target count stage) :: base)
        (m.step client) := by
    have hbefore : m.stack =
        (old ++ kept) ++ .operation (.advance c target count stage) :: base := by
      rw [hold, hrest, List.append_assoc]
    obtain ⟨x, hx⟩ := hreach.exists_of_advance hbefore hstage
    refine (h _ target count stage base hbefore hstage).step hbefore ?_ hreach.isTidy
      (List.mem_append_left _ (List.mem_singleton_self _)) (by simp [World.timetable?_eq hx])
      (hreach.desk c) hs
    rcases htop with hne | hnil | hcontrol
    · exact .inl fun hnil => hne (List.append_eq_nil_iff.mp hnil).1
    · simp [hnil] at hrest
    · exact .inr hcontrol
  rw [hnew] at hs
  rcases List.append_eq_append_iff.mp hs with ⟨kept, -, hrest⟩ | ⟨below, hlayers, hbelow⟩
  · exact .inl (goesOn kept hrest)
  · rcases below with _ | ⟨layer, below⟩
    · exact .inl (goesOn [] hbelow.symm)
    · obtain ⟨rfl, -⟩ := List.cons.inj hbelow
      exact .inr ⟨below, hlayers⟩

/-- An advance among the frames of an operation that has just begun or gone on. -/
theorem mem_frames_of_new {frames : List (Frame β)} {above below : List (Layer β κ)} {f : Frame β}
    (h : frames.map .operation = above ++ .operation f :: below) : f ∈ frames := by
  have hmem : (.operation f : Layer β κ) ∈ frames.map .operation := by simp [h]
  obtain ⟨g, hg, heq⟩ := List.mem_map.mp hmem
  exact Layer.operation.inj heq ▸ hg

/-- An advance that has just begun asks for a run until idle. -/
theorem waiting_of_perform {command : Command β} {stack above below base : List (Layer β κ)}
    {target count : Nat} {stage : AdvanceStage}
    (hf : (m.step client).Follows (m.world.perform command) stack)
    (hnew : (m.world.perform command).frames.map .operation =
      above ++ .operation (.advance c target count stage) :: below) (hstage : stage ≠ .after) :
    Waiting c stage above base (m.step client) := by
  have hmem := mem_frames_of_new hnew
  obtain ⟨duration, rfl⟩ : ∃ duration, command = .advance c duration := by
    refine Classical.byContradiction fun hnot => ?_
    have htargetless := m.world.targetless_perform c (fun duration hc => hnot ⟨duration, hc⟩) _ hmem
    simp [Frame.target?, hstage] at htargetless
  change (m.step client).Follows (m.world.advance c duration) stack at hf
  change (m.world.advance c duration).frames.map _ = _ at hnew
  unfold World.advance at hf hnew
  split at hf
  · simp [Progress.reply, *] at hnew
  · next x hx =>
      rw [hx] at hnew
      dsimp only at hf hnew
      split at hf
      · next hclock =>
          rw [hclock] at hnew
          rcases List.append_eq_singleton_iff.mp hnew.symm with ⟨rfl, hlayers⟩ | ⟨-, hnil⟩
          · obtain ⟨heq, -⟩ := List.cons.inj hlayers
            cases heq
            exact .asks rfl hf.control fun hwithin => (by cases hwithin)
          · cases hnil
      · next hclock =>
          rw [hclock] at hnew
          simp [Progress.perform] at hnew

/-- An advance that goes on asks for a run until idle, which has something to do at a deadline. -/
theorem Attentive.goesOn (h : m.Attentive c) {frame : Frame β} {reply : Reply β}
    {stack above below base : List (Layer β κ)} (hs : m.stack = .operation frame :: stack)
    (hm : m.control = .deliver reply) (hf : (m.step client).Follows (frame.resume m.world reply) stack)
    {target count : Nat} {stage : AdvanceStage}
    (hnew : (frame.resume m.world reply).frames.map .operation =
      above ++ .operation (.advance c target count stage) :: below) (hstage : stage ≠ .after) :
    Waiting c stage above base (m.step client) := by
  have hmem := mem_frames_of_new hnew
  obtain ⟨goal, total, stage', rfl⟩ : ∃ goal total stage', frame = .advance c goal total stage' := by
    refine Classical.byContradiction fun hnot => ?_
    have htargetless := m.world.targetless_resume c reply
      (fun goal total stage' hframe => hnot ⟨goal, total, stage', hframe⟩) _ hmem
    simp [Frame.target?, hstage] at htargetless
  change (m.step client).Follows (m.world.continueAdvance c goal total stage' reply) stack at hf
  change (m.world.continueAdvance c goal total stage' reply).frames.map _ = _ at hnew
  by_cases hstage' : stage' = .after
  · subst hstage'
    simp [World.continueAdvance, Progress.reply] at hnew
  · obtain ⟨ran, x, rfl, hran, hx⟩ := h.heard hs hstage' hm
    rw [World.continueAdvance_eq hx goal total hstage' hran] at hf hnew
    rcases List.append_eq_singleton_iff.mp hnew.symm with ⟨rfl, hlayers⟩ | ⟨-, hnil⟩
    · obtain ⟨heq, -⟩ := List.cons.inj hlayers
      cases heq
      exact .asks rfl hf.control fun hwithin =>
        hf.world.pending ⟨_, World.context?_setTime hx _, MainContext.pending_of_stride hwithin⟩
    · cases hnil

theorem not_new_of_callback {k : κ} {inv : Invocation} {f : Frame β} {above below : List (Layer β κ)} :
    [.callback k inv] ≠ above ++ .operation f :: below := by
  intro h
  rcases List.append_eq_singleton_iff.mp h.symm with ⟨-, hlayers⟩ | ⟨-, hnil⟩
  · cases hlayers
  · cases hnil

theorem Attentive.step (h : m.Attentive c) (hreach : Reachable client m) :
    (m.step client).Attentive c := by
  intro above target count stage base hs hstage
  cases moved_step client m with
  | performs command hm hf =>
      rcases h.kept hreach [] _ m.stack rfl hf.stack
        (.inr (.inr fun reply hc => (by cases hm.symm.trans hc))) hs hstage with
        hwaits | ⟨below, hnew⟩
      · exact hwaits
      · exact waiting_of_perform hf hnew hstage
  | resumes frame reply stack hm hs' hf =>
      rcases h.kept hreach [.operation frame] _ stack hs' hf.stack
        (.inl (List.cons_ne_nil _ _)) hs hstage with hwaits | ⟨below, hnew⟩
      · exact hwaits
      · exact h.goesOn hs' hm hf hnew hstage
  | enters rest inv reply hm hw hs' hc =>
      have hcontrol (reply : Reply β) : m.control ≠ .deliver reply := by
        intro hc
        rcases hm with ⟨callback, hm⟩ | ⟨d, task, outcome, hm⟩ <;> cases hm.symm.trans hc
      exact (h.kept hreach [] [.callback rest inv] m.stack rfl hs'
        (.inr (.inr hcontrol)) hs hstage).resolve_right fun ⟨_, hnew⟩ => not_new_of_callback hnew
  | asks command k k' inv stack hw hs' hs'' hc =>
      exact (h.kept hreach [.callback k inv] [.callback k' inv] stack hs' hs''
        (.inl (List.cons_ne_nil _ _)) hs hstage).resolve_right
          fun ⟨_, hnew⟩ => not_new_of_callback hnew
  | goesOn reply k k' inv stack hw hs' hs'' hc =>
      exact (h.kept hreach [.callback k inv] [.callback k' inv] stack hs' hs''
        (.inl (List.cons_ne_nil _ _)) hs hstage).resolve_right
          fun ⟨_, hnew⟩ => not_new_of_callback hnew
  | leaves reply k inv stack hw hs' hs'' hc hr =>
      exact (h.kept hreach [.callback k inv] [] stack hs' hs''
        (.inl (List.cons_ne_nil _ _)) hs hstage).resolve_right fun ⟨_, hnew⟩ => (by simp at hnew)
  | rests reply hw hs' hm hc =>
      have htop : m.stack = [] ∨ ∀ reply, m.control ≠ .deliver reply := by
        rcases hm with ⟨-, hnil⟩ | ⟨d, task, outcome, hm⟩
        · exact .inl hnil
        · exact .inr fun reply hc => (by cases hm.symm.trans hc)
      exact (h.kept hreach [] [] m.stack rfl hs' (.inr htop) hs
        hstage).resolve_right fun ⟨_, hnew⟩ => (by simp at hnew)

theorem Reachable.attentive (hreach : Reachable client m) (c : ContextId) : m.Attentive c := by
  induction hreach with
  | initial state callback =>
      intro above target count stage base hs
      exact absurd hs.symm (List.append_ne_nil_of_right_ne_nil _ (List.cons_ne_nil _ _))
  | step hreach ih => exact ih.step hreach

/-! ## Every reachable state -/

/-- A manual clock that ticks passes no deadline. -/
theorem punctual_of_ticking (hreach : Reachable client m) {t t' : Timetable β}
    (ht : m.world.timetable? c = some t) (hclock : t.config.clock = .manual) (h : t.Punctual)
    (hticking : m.Ticking c) (ht' : (m.step client).world.timetable? c = some t') :
    t'.Punctual := by
  obtain ⟨target, count, stage, stack, reply, hs, hm⟩ := hticking.of_manual fun u hu => by
    cases ht.symm.trans hu
    exact hclock
  have hf : (m.step client).Follows (m.world.continueAdvance c target count stage reply) stack :=
    follows_resume client hm hs
  by_cases hstage : stage = .after
  · subst hstage
    obtain rfl := Option.some.inj (((hf.world.timetable c).trans ht).symm.trans ht')
    exact h
  · obtain ⟨ran, x, rfl, hran, hx⟩ := (hreach.attentive c).heard hs hstage hm
    obtain rfl := Option.some.inj ((World.timetable?_eq hx).symm.trans ht)
    rw [World.continueAdvance_eq hx target count hstage hran] at hf
    have hset := World.timetable?_eq (World.context?_setTime hx (x.stride target).1)
    obtain rfl := Option.some.inj (((hf.world.timetable c).trans hset).symm.trans ht')
    exact MainContext.punctual_stride ((hreach.desk c).present _ ht).nodup h target

/-- **On a manual clock, no timeout in the queue has its deadline behind it**, wherever the clock is
advanced from. -/
theorem Reachable.punctual (hreach : Reachable client m) {x : MainContext β}
    (hx : m.world.context? c = some x) (hclock : x.config.clock = .manual) :
    x.timetable.Punctual := by
  suffices ∀ t, m.world.timetable? c = some t → t.config.clock = .manual → t.Punctual from
    this _ (World.timetable?_eq hx) hclock
  clear hx hclock
  induction hreach with
  | initial state callback => exact fun t ht => (by cases ht)
  | @step m hreach ih =>
      intro t' ht' hclock
      have hmove := (turn_step client m).desk c
      have hconfig {t : Timetable β} (ht : m.world.timetable? c = some t) :
          t.config.clock = .manual := by
        obtain ⟨u, hu, hsame⟩ := hmove.config ht
        obtain rfl := Option.some.inj (hu.symm.trans ht')
        exact hsame ▸ hclock
      refine hmove.punctual (fun t ht => ih t ht (hconfig ht)) (fun t now hticking ht hnow => ?_) t' ht'
      exact punctual_of_ticking hreach ht (hconfig ht) (ih t ht (hconfig ht)) hticking hnow

end Machine

end ObjectSystem
