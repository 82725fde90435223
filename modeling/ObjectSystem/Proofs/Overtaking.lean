import ObjectSystem.Proofs.Clockwork

/-!
# Clocks that are moved from inside

Callbacks may advance a clock that is being advanced already. Each advance in progress has a
*target*, and the clock goes through deadlines on its way there. What a step does to the clock and
to the targets ahead is one of five things (`Ticks`); the clock can go back with only one of them,
when an advance has nothing left on its way and puts the clock at its target.

The clock goes back exactly when a target that is reached so lies behind it, and that takes a nested
advance which overtakes one in progress (`clock_goes_back_only_when_overtaken`). As long as none
does, the time and the targets ahead are in order, from the innermost advance to the outermost.
-/

namespace ObjectSystem

variable {σ β κ : Type}

/-! ## Targets -/

/-- The time to which an advance of a context in progress has yet to put the clock. -/
def Frame.target? (c : ContextId) : Frame β → Option Nat
  | .advance d target _ stage => if d = c ∧ stage ≠ .after then some target else none
  | _ => none

/-- The same for a place on the stack. -/
def Layer.target? (c : ContextId) : Layer β κ → Option Nat
  | .callback _ _ => none
  | .operation f => f.target? c

namespace Machine

/-- The targets of the advances of a context in progress, that of the innermost first. -/
def targets (m : Machine σ β κ) (c : ContextId) : List Nat :=
  m.stack.filterMap (Layer.target? c)

/-- The target at which the next step puts the clock of a context, because the innermost advance has
nothing left on its way. -/
def arrival (m : Machine σ β κ) (c : ContextId) : Option Nat :=
  match m.control, m.stack with
  | .deliver reply, .operation (.advance d target count stage) :: _ =>
    match (m.world.continueAdvance d target count stage reply).frames with
    | [.advance _ _ _ .after] => if d = c then some target else none
    | _ => none
  | _, _ => none

/-- Whether an advance is asked for that aims beyond the target of one in progress. -/
def overtakes (m : Machine σ β κ) (c : ContextId) : Bool :=
  match m.control with
  | .perform (.advance d duration) => d = c && (m.targets c).any (· < m.time c + duration)
  | _ => false

end Machine

/-- What a step does to the time of a context and to the targets ahead. -/
inductive Ticks (c : ContextId) (m m' : Machine σ β κ) : Prop
  /-- The clock stands; targets may be given up, but never are while the context exists. -/
  | stands (ht : m'.time c = m.time c) (hs : m'.targets c <:+ m.targets c)
  /-- An advance begins. -/
  | begins (duration : Nat) (hm : m.control = .perform (.advance c duration))
      (hx : m.world.context? c ≠ none) (ht : m'.time c = m.time c)
      (hs : m'.targets c = (m.time c + duration) :: m.targets c)
  /-- A clock of the machine moves on at once. -/
  | jumps (duration : Nat) (hm : m.control = .perform (.advance c duration))
      (ht : m'.time c = m.time c + duration) (hs : m'.targets c = m.targets c)
  /-- The innermost advance steps to a deadline. -/
  | steps (target : Nat) (rest : List Nat) (hs : m.targets c = target :: rest)
      (hs' : m'.targets c = m.targets c) (hle : m.time c ≤ m'.time c)
      (hmax : m'.time c ≤ max (m.time c) target)
  /-- The innermost advance puts the clock at its target. -/
  | arrives (target : Nat) (rest : List Nat) (ha : m.arrival c = some target)
      (hs : m.targets c = target :: rest) (ht : m'.time c = target) (hs' : m'.targets c = rest)

/-! ## Frames without targets -/

theorem Frame.target?_of_not_driver {c : ContextId} {f : Frame β} (h : f.isDriver c = false) :
    f.target? c = none := by
  cases f with
  | advance d target count stage =>
      have hd : d ≠ c := by simpa [isDriver] using h
      simp [target?, hd]
  | _ => rfl

theorem Frame.target?_of_isBystander {c : ContextId} {f : Frame β}
    (h : f.isBystander c = true) : f.target? c = none := by
  simp only [isBystander, Bool.and_eq_true, Bool.not_eq_true'] at h
  exact target?_of_not_driver h.1

namespace World

variable (w : World β) (c : ContextId)

theorem targetless_drain (d : ContextId) (count : Nat) :
    ∀ f ∈ (w.drain d count).frames, f.target? c = none := by
  unfold drain
  split
  · simp [Progress.reply]
  · split <;> simp [Progress.perform, Progress.reply, Frame.target?]

/-- Only a command that advances the clock of a context begins an operation with a target. -/
theorem targetless_perform {command : Command β} (h : ∀ duration, command ≠ .advance c duration) :
    ∀ f ∈ (w.perform command).frames, f.target? c = none := by
  cases hdrives : command.drives c with
  | false => exact fun f hf => Frame.target?_of_isBystander ((w.aside_perform hdrives).frames f hf)
  | true =>
      cases command with
      | advance d duration =>
          have hd : d = c := by simpa [Command.drives] using hdrives
          exact absurd (congrArg (Command.advance · duration) hd) (h duration)
      | runUntilIdle d => exact w.targetless_drain c d 0
      | iterate d =>
          show ∀ f ∈ (w.iterate d).frames, _
          unfold iterate
          split
          · simp [Progress.reply]
          · split <;> simp [Progress.proceed, Frame.target?]
      | runLoop l => simp [perform, runLoop, Progress.proceed, Frame.target?]
      | _ => cases hdrives

/-- No other operation than an advance of the clock of a context goes on with a target. -/
theorem targetless_resume {frame : Frame β} (reply : Reply β)
    (h : ∀ target count stage, frame ≠ .advance c target count stage) :
    ∀ f ∈ (frame.resume w reply).frames, f.target? c = none := by
  cases hbystander : frame.isBystander c with
  | true =>
      intro f hf
      exact Frame.target?_of_isBystander ((w.aside_resume hbystander reply).frames f hf)
  | false =>
      cases frame with
      | advance d target count stage =>
          have hd : d = c := by
            simpa [Frame.isBystander, Frame.isDriver, Frame.movesClock] using hbystander
          exact absurd (congrArg (Frame.advance · target count stage) hd) (h target count stage)
      | drain d count =>
          show ∀ f ∈ (w.continueDrain d count reply).frames, _
          unfold continueDrain
          split
          · exact w.targetless_drain c d _
          · simp [Progress.reply]
          · exact w.targetless_drain c d _
      | collect d polled =>
          show ∀ f ∈ (w.collect d polled).frames, _
          unfold collect
          split
          · simp [Progress.reply]
          · simp [Progress.proceed, Frame.target?]
      | loop l =>
          exact fun f hf => Frame.target?_of_not_driver (w.frames_checkLoop c l f hf).2
      | looped l =>
          exact fun f hf => Frame.target?_of_not_driver (w.frames_continueLoop c l reply f hf).2
      | _ => cases hbystander

/-- How an advance goes on: it steps to a deadline, puts the clock at its target, or is over. -/
inductive AdvanceGoesOn (c : ContextId) (target : Nat) (stage : AdvanceStage) (x : MainContext β) :
    Progress β → Prop
  | steps (now count : Nat) (hstage : stage ≠ .after) (hle : x.now ≤ now)
      (hmax : now ≤ max x.now target) :
      AdvanceGoesOn c target stage x
        (.perform (w.setTime c now) (.runUntilIdle c) [.advance c target count .within])
  | arrives (count : Nat) (hstage : stage ≠ .after) :
      AdvanceGoesOn c target stage x
        (.perform (w.setTime c target) (.runUntilIdle c) [.advance c target count .after])
  | ends (count : Nat) (hstage : stage = .after) :
      AdvanceGoesOn c target stage x (.reply w (.count count))

variable {w c}

theorem advanceGoesOn {x : MainContext β} (hx : w.context? c = some x) (target count : Nat)
    (stage : AdvanceStage) (reply : Reply β) :
    w.AdvanceGoesOn c target stage x (w.continueAdvance c target count stage reply) := by
  have hstep (hstage : stage ≠ .after) (ran : Nat) :
      w.AdvanceGoesOn c target stage x (w.stepClock c target ran) := by
    unfold stepClock
    rw [hx]
    dsimp only
    split
    · exact .arrives ran hstage
    · split
      · exact .arrives ran hstage
      · next deadline _ hle => exact .steps _ ran hstage (Nat.le_max_left _ _) (by omega)
  unfold continueAdvance
  extract_lets ran
  clear_value ran
  cases stage with
  | before => exact hstep (by decide) _
  | within =>
      dsimp only
      split
      · exact .arrives count (by decide)
      · exact hstep (by decide) _
  | after => exact .ends _ rfl

end World

/-! ## Times and targets after a step -/

section Step

variable (client : Client σ β κ) {m : Machine σ β κ} {c : ContextId}

theorem time_eq_now (m : Machine σ β κ) (c : ContextId) :
    m.time c = ((m.world.timetable? c).map (·.now)).getD 0 := by
  simp only [Machine.time, World.timetable?, Option.map_map]
  rfl

/-- The clock stands still unless it ticks. -/
theorem time_step_of_not_ticking (hnot : ¬ m.Ticking c) : (m.step client).time c = m.time c := by
  have hmove : Desk.Move (m.Ticking c) (m.desk c) ((m.step client).desk c) :=
    (turn_step client m).desk c
  rw [time_eq_now, time_eq_now]
  show ((Machine.desk (m.step client) c).timetable.map (·.now)).getD 0 =
    ((m.desk c).timetable.map (·.now)).getD 0
  cases ht : (m.desk c).timetable with
  | some t =>
      obtain ⟨u, hu, hnow, -⟩ := hmove.sameClock hnot t ht
      rw [hu]
      exact hnow
  | none =>
      cases hmove with
      | edits he hw hr =>
          rw [ht] at he
          generalize (Machine.desk (m.step client) c).timetable = u? at he
          cases he
          rfl
      | opens config hnone ht' hw hr =>
          rw [ht']
          rfl
      | drops hnone ht' hw hr => rw [ht']
      | ticks t _ _ hsome | collects t hsome | skips t _ hsome | begins t _ _ hsome
      | ends t _ _ _ _ hsome => cases ht.symm.trans hsome

/-- The clock does not tick where a command that is no advance is asked for. -/
theorem Machine.not_ticking_of_perform {command : Command β} (hm : m.control = .perform command)
    (hnot : ∀ duration, command ≠ .advance c duration) : ¬ m.Ticking c := by
  rintro (⟨_, _, _, _, _, reply, hdeliver⟩ | ⟨duration, _, hadvance, _, _⟩)
  · cases hm.symm.trans hdeliver
  · cases hm.symm.trans hadvance
    exact hnot duration rfl

/-- The clock does not tick where an operation that is no advance hears a reply. -/
theorem Machine.not_ticking_of_deliver {frame : Frame β} {reply : Reply β}
    {stack : List (Layer β κ)} (hm : m.control = .deliver reply)
    (hs : m.stack = .operation frame :: stack)
    (hnot : ∀ target count stage, frame ≠ .advance c target count stage) : ¬ m.Ticking c := by
  rintro (⟨target, count, stage, _, hadvance, -⟩ | ⟨_, _, hadvance, _, _⟩)
  · cases hs.symm.trans hadvance
    exact hnot target count stage rfl
  · cases hm.symm.trans hadvance

/-- A step that sets a clock sets it. -/
theorem time_of_setTime {p : Progress β} {now : Nat} {stack : List (Layer β κ)}
    (h : (m.step client).Follows p stack) (hp : p.world = m.world.setTime c now)
    (hexists : m.world.context? c ≠ none) : (m.step client).time c = now := by
  obtain ⟨x, hx⟩ := Option.ne_none_iff_exists'.mp hexists
  have ht : (m.step client).world.timetable? c = some { x.timetable with now } := by
    rw [h.world.timetable, hp, World.timetable?_setTime, if_pos rfl, World.timetable?_eq hx]
    rfl
  exact Machine.time_eq ht

/-- Targets after a step that puts operations on a stack. -/
theorem targets_of_follows {m' : Machine σ β κ} {p : Progress β} {stack : List (Layer β κ)}
    (h : m'.Follows p stack) :
    m'.targets c = p.frames.filterMap (·.target? c) ++ stack.filterMap (Layer.target? c) := by
  rw [Machine.targets, h.stack, List.filterMap_append, List.filterMap_map]
  rfl

theorem targets_of_targetless {m' : Machine σ β κ} {p : Progress β} {stack : List (Layer β κ)}
    (h : m'.Follows p stack) (hnone : ∀ f ∈ p.frames, f.target? c = none) :
    m'.targets c = stack.filterMap (Layer.target? c) := by
  rw [targets_of_follows h, List.filterMap_eq_nil_iff.mpr hnone, List.nil_append]

theorem ticks_perform {command : Command β} (hm : m.control = .perform command) :
    Ticks c m (m.step client) := by
  have h := Machine.follows_perform client hm
  by_cases hadvance : ∃ duration, command = .advance c duration
  · obtain ⟨duration, rfl⟩ := hadvance
    cases hx : m.world.context? c with
    | none =>
        have hp : m.world.perform (.advance c duration) = .reply m.world .missing := by
          simp only [World.perform, World.advance, hx]
        refine .stands (time_step_of_not_ticking client ?_) ?_
        · rintro (⟨_, _, _, _, _, r, hr⟩ | ⟨_, x, _, hx', _⟩)
          · cases hm.symm.trans hr
          · cases hx.symm.trans hx'
        · rw [hp] at h
          rw [targets_of_follows h]
          exact List.suffix_rfl
    | some x =>
        have htime : m.time c = x.now := by simp [Machine.time, hx]
        have hexists : m.world.context? c ≠ none := by simp [hx]
        cases hclock : x.config.clock with
        | manual =>
            have hp : m.world.perform (.advance c duration) = .perform m.world (.runUntilIdle c)
                [.advance c (x.now + duration) 0 .before] := by
              simp only [World.perform, World.advance, hx, hclock]
            rw [hp] at h
            refine .begins duration hm hexists (time_step_of_not_ticking client ?_) ?_
            · rintro (⟨_, _, _, _, _, r, hr⟩ | ⟨_, y, _, hy, hsystem⟩)
              · cases hm.symm.trans hr
              · obtain rfl := Option.some.inj (hx.symm.trans hy)
                cases hclock.symm.trans hsystem
            · rw [targets_of_follows h, htime]
              simp [Progress.perform, Frame.target?, Machine.targets]
        | system =>
            have hp : m.world.perform (.advance c duration) =
                .perform (m.world.setTime c (x.now + duration)) (.runUntilIdle c) [] := by
              simp only [World.perform, World.advance, hx, hclock]
            rw [hp] at h
            refine .jumps duration hm ?_ ?_
            · rw [htime]
              exact time_of_setTime client h rfl hexists
            · rw [targets_of_follows h]
              rfl
  · refine .stands (time_step_of_not_ticking client ?_) ?_
    · rintro (⟨_, _, _, _, _, r, hr⟩ | ⟨duration, _, hm', _, _⟩)
      · cases hm.symm.trans hr
      · cases hm.symm.trans hm'
        exact hadvance ⟨duration, rfl⟩
    · rw [targets_of_targetless h
        (m.world.targetless_perform c fun duration hc => hadvance ⟨duration, hc⟩)]
      exact List.suffix_rfl

/-- An operation that only replies gives its targets up and leaves the clock alone. -/
theorem ticks_of_reply {frame : Frame β} {reply : Reply β} {stack : List (Layer β κ)}
    (hs : m.stack = .operation frame :: stack)
    (h : (m.step client).Follows (.reply m.world reply) stack) : Ticks c m (m.step client) := by
  refine .stands ?_ ?_
  · rw [time_eq_now, time_eq_now, h.world.timetable]
    rfl
  · rw [targets_of_follows h, Machine.targets, hs]
    exact (List.suffix_cons _ _).filterMap _

theorem ticks_resume {frame : Frame β} {reply : Reply β} {stack : List (Layer β κ)}
    (hm : m.control = .deliver reply) (hs : m.stack = .operation frame :: stack)
    (hexists : m.targets c ≠ [] → m.world.context? c ≠ none) : Ticks c m (m.step client) := by
  have h := Machine.follows_resume client hm hs
  have htargets : m.targets c =
      (frame.target? c).toList ++ stack.filterMap (Layer.target? c) := by
    rw [Machine.targets, hs]
    cases htarget : frame.target? c <;> simp [Layer.target?, htarget]
  by_cases hadvance : ∃ target count stage, frame = .advance c target count stage
  · obtain ⟨target, count, stage, rfl⟩ := hadvance
    change (m.step client).Follows (m.world.continueAdvance c target count stage reply) stack at h
    cases hx : m.world.context? c with
    | none =>
        have hstage : stage = .after := by
          by_contra hstage
          refine hexists ?_ hx
          rw [htargets]
          simp [Frame.target?, hstage]
        subst hstage
        exact ticks_of_reply client hs h
    | some x =>
        have htime : m.time c = x.now := by simp [Machine.time, hx]
        have hpresent : m.world.context? c ≠ none := by simp [hx]
        have hgoes := World.advanceGoesOn hx target count stage reply
        have harrival : m.arrival c =
            match (m.world.continueAdvance c target count stage reply).frames with
            | [.advance _ _ _ .after] => some target
            | _ => none := by
          unfold Machine.arrival
          rw [hm, hs]
          simp
        generalize m.world.continueAdvance c target count stage reply = p at h hgoes harrival
        cases hgoes with
        | steps now n hstage hle hmax =>
            have hnow := time_of_setTime client h rfl hpresent
            refine .steps target (stack.filterMap (Layer.target? c)) ?_ ?_ ?_ ?_
            · simpa [Frame.target?, hstage] using htargets
            · rw [targets_of_follows h, htargets]
              simp [Progress.perform, Frame.target?, hstage]
            · rw [hnow, htime]
              exact hle
            · rw [hnow, htime]
              exact hmax
        | arrives n hstage =>
            refine .arrives target (stack.filterMap (Layer.target? c)) harrival ?_ ?_ ?_
            · simpa [Frame.target?, hstage] using htargets
            · exact time_of_setTime client h rfl hpresent
            · rw [targets_of_follows h]
              simp [Progress.perform, Frame.target?]
        | ends n hstage => exact ticks_of_reply client hs h
  · refine .stands (time_step_of_not_ticking client ?_) ?_
    · rintro (⟨target, count, stage, rest, hs', -⟩ | ⟨duration, _, hm', _, _⟩)
      · cases hs.symm.trans hs'
        exact hadvance ⟨target, count, stage, rfl⟩
      · cases hm.symm.trans hm'
    · rw [targets_of_targetless h (m.world.targetless_resume c reply
        fun target count stage hc => hadvance ⟨target, count, stage, hc⟩), htargets]
      exact List.suffix_append _ _

/-- Callbacks leave time and targets alone. -/
theorem ticks_callback (hw : World.Calm m.world (m.step client).world)
    (hs : (m.step client).targets c = m.targets c) : Ticks c m (m.step client) := by
  refine .stands ?_ (hs ▸ List.suffix_rfl)
  rw [time_eq_now, time_eq_now, hw.timetable]

theorem ticks_step (hexists : m.targets c ≠ [] → m.world.context? c ≠ none) :
    Ticks c m (m.step client) := by
  have hcallback {rest : κ} {inv : Invocation} {stack : List (Layer β κ)} {m : Machine σ β κ}
      (hs : m.stack = .callback rest inv :: stack) :
      m.targets c = stack.filterMap (Layer.target? c) := by
    rw [Machine.targets, hs]
    rfl
  cases Machine.moved_step client m with
  | performs command hm h => exact ticks_perform client hm
  | resumes frame reply stack hm hs h => exact ticks_resume client hm hs hexists
  | enters rest inv reply hm hw hs hc => exact ticks_callback client hw (hcallback hs)
  | asks command rest rest' inv stack hw hs hs' hc =>
      exact ticks_callback client hw ((hcallback hs').trans (hcallback hs).symm)
  | goesOn reply rest rest' inv stack hw hs hs' hc =>
      exact ticks_callback client hw ((hcallback hs').trans (hcallback hs).symm)
  | leaves reply rest inv stack hw hs hs' hc hr =>
      exact ticks_callback client hw ((congrArg _ hs').trans (hcallback hs).symm)
  | rests reply hw hs hm hc => exact ticks_callback client hw (congrArg _ hs)

end Step

/-! ## Along a run -/

variable {client : Client σ β κ} {m : Machine σ β κ} {c : ContextId}

/-- A context whose clock is being advanced exists. -/
theorem Machine.Reachable.exists_of_targets (h : Machine.Reachable client m) :
    m.targets c ≠ [] → m.world.context? c ≠ none := by
  induction h with
  | initial state program => exact fun htargets => absurd rfl htargets
  | @step m _ ih =>
      intro htargets
      have hexists : m.world.context? c ≠ none := by
        cases ticks_step client ih with
        | stands ht hs =>
            refine ih fun hnil => htargets ?_
            rw [hnil] at hs
            exact List.suffix_nil.mp hs
        | begins duration hm hx ht hs => exact hx
        | jumps duration hm ht hs => exact ih (hs ▸ htargets)
        | steps target rest hs hs' hle hmax => exact ih (hs' ▸ htargets)
        | arrives target rest ha hs ht hs' => exact ih (by simp [hs])
      obtain ⟨x, hx⟩ := Option.ne_none_iff_exists'.mp hexists
      obtain ⟨t, ht, -⟩ := ((turn_step client m).desk c).config (World.timetable?_eq hx)
      intro hnone
      cases (World.timetable?_eq_none.mpr hnone).symm.trans ht

theorem Machine.Reachable.ticks (h : Machine.Reachable client m) (c : ContextId) :
    Ticks c m (m.step client) :=
  ticks_step client h.exists_of_targets

/-- The time and the targets ahead are in order, from the innermost advance to the outermost. -/
def Machine.InOrder (m : Machine σ β κ) (c : ContextId) : Prop :=
  (m.time c :: m.targets c).Pairwise (· ≤ ·)

/-- In order, an advance that is asked for and overtakes none has its target before all others. -/
theorem Machine.le_targets {duration : Nat} (hm : m.control = .perform (.advance c duration))
    (hnot : m.overtakes c = false) : ∀ target ∈ m.targets c, m.time c + duration ≤ target := by
  intro target htarget
  unfold overtakes at hnot
  rw [hm] at hnot
  simp only [decide_true, Bool.true_and, List.any_eq_false, decide_eq_true_eq, Nat.not_lt] at hnot
  exact hnot target htarget

/-- A step from an ordered state, with which no advance overtakes another, leaves it in order and
does not set the clock back. -/
theorem Machine.InOrder.step (h : m.InOrder c) (hreach : Machine.Reachable client m)
    (hnot : m.overtakes c = false) :
    (m.step client).InOrder c ∧ m.time c ≤ (m.step client).time c := by
  obtain ⟨hhead, htail⟩ := List.pairwise_cons.mp h
  unfold InOrder
  cases hreach.ticks c with
  | stands ht hs =>
      -- targets that are given up leave the others in order
      rw [ht]
      refine ⟨List.pairwise_cons.mpr ⟨fun target htarget => ?_, htail.sublist hs.sublist⟩,
        Nat.le_refl _⟩
      exact hhead target (hs.subset htarget)
  | begins duration hm hx ht hs =>
      -- the new target is ahead of the clock, and overtakes none of the others
      have hle := le_targets hm hnot
      rw [ht, hs]
      refine ⟨List.pairwise_cons.mpr ⟨fun target htarget => ?_,
        List.pairwise_cons.mpr ⟨hle, htail⟩⟩, Nat.le_refl _⟩
      rcases List.mem_cons.mp htarget with rfl | htarget
      · exact Nat.le_add_right _ _
      · exact hhead target htarget
  | jumps duration hm ht hs =>
      rw [ht, hs]
      exact ⟨List.pairwise_cons.mpr ⟨le_targets hm hnot, htail⟩, Nat.le_add_right _ _⟩
  | steps target rest hs hs' hle hmax =>
      -- the clock stays before the innermost target, and with it before the others
      rw [hs] at hhead htail
      rw [hs', hs]
      have hahead : (m.step client).time c ≤ target := by
        have := hhead target List.mem_cons_self
        omega
      refine ⟨List.pairwise_cons.mpr ⟨fun other hother => ?_, htail⟩, hle⟩
      rcases List.mem_cons.mp hother with rfl | hother
      · exact hahead
      · exact Nat.le_trans hahead ((List.pairwise_cons.mp htail).1 other hother)
  | arrives target rest ha hs ht hs' =>
      rw [hs] at hhead htail
      rw [ht, hs']
      exact ⟨htail, hhead target List.mem_cons_self⟩

theorem Machine.InOrder.after (hreach : Machine.Reachable client m) (h : m.InOrder c) {n : Nat}
    (hnot : ∀ k, k < n → (m.after client k).overtakes c = false) :
    (m.after client n).InOrder c := by
  induction n with
  | zero => exact h
  | succ n ih =>
      have hn := ih fun k hk => hnot k (Nat.lt_succ_of_lt hk)
      exact (hn.step (hreach.after n) (hnot n (Nat.lt_succ_self n))).1

/-- A step puts the clock at the target at which it arrives. -/
theorem Machine.Reachable.time_of_arrival (h : Machine.Reachable client m) {target : Nat}
    (ha : m.arrival c = some target) : (m.step client).time c = target := by
  -- an arrival is told by the frame that the advance leaves
  unfold arrival at ha
  split at ha
  case h_2 => cases ha
  next reply d goal count stage stack hm hs =>
  split at ha
  case h_2 => cases ha
  next hframes =>
  split at ha
  case isFalse => cases ha
  next hd =>
  obtain rfl := hd
  obtain rfl := Option.some.inj ha
  have hstage : stage ≠ .after := by
    rintro rfl
    cases hframes
  have hexists : m.world.context? d ≠ none := by
    apply h.exists_of_targets
    rw [targets, hs]
    simp [Layer.target?, Frame.target?, hstage]
  obtain ⟨x, hx⟩ := Option.ne_none_iff_exists'.mp hexists
  have hfollows := follows_resume client hm hs
  have hgoes := World.advanceGoesOn hx goal count stage reply
  change (m.step client).Follows (m.world.continueAdvance d goal count stage reply) stack
    at hfollows
  generalize m.world.continueAdvance d goal count stage reply = p at hfollows hgoes hframes
  cases hgoes with
  | steps now n hstage hle hmax => cases hframes
  | arrives n hstage => exact time_of_setTime client hfollows rfl hexists
  | ends n hstage => cases hframes

/-- A clock goes back with a step exactly if an advance so arrives at a target behind it. None does
as long as no advance is asked for that aims beyond the target of one in progress; then the clock
never goes back. -/
theorem clock_goes_back_only_when_overtaken (client : Client σ β κ) (state : σ) (program : β)
    (c : ContextId) :
    let m : Machine σ β κ := .initial state program
    (∀ k, (m.after client (k + 1)).time c < (m.after client k).time c ↔
      ∃ target, (m.after client k).arrival c = some target ∧
        target < (m.after client k).time c) ∧
    (∀ n, (∀ k, k < n → (m.after client k).overtakes c = false) →
      ∀ i j, i ≤ j → j ≤ n → (m.after client i).time c ≤ (m.after client j).time c) := by
  intro m
  have hreach : Machine.Reachable client m := .initial state program
  refine ⟨fun k => ⟨fun hback => ?_, ?_⟩, fun n hnot i j hij hjn => ?_⟩
  · have hback : ((m.after client k).step client).time c < (m.after client k).time c := hback
    cases (hreach.after k).ticks c with
    | stands ht hs => omega
    | begins duration hm hx ht hs => omega
    | jumps duration hm ht hs => omega
    | steps target rest hs hs' hle hmax => omega
    | arrives target rest ha hs ht hs' => exact ⟨target, ha, ht ▸ hback⟩
  · rintro ⟨target, ha, hback⟩
    show ((m.after client k).step client).time c < (m.after client k).time c
    rw [(hreach.after k).time_of_arrival ha]
    exact hback
  · -- from state to state, by the order of time and targets
    induction j with
    | zero =>
        obtain rfl := Nat.le_zero.mp hij
        exact Nat.le_refl _
    | succ j ih =>
        rcases Nat.lt_or_eq_of_le hij with hlt | rfl
        · have horder : (m.after client j).InOrder c :=
            .after hreach (List.pairwise_singleton _ _) fun k hk => hnot k (by omega)
          have hle := (horder.step (hreach.after j) (hnot j hjn)).2
          exact Nat.le_trans (ih (Nat.le_of_lt_succ hlt) (Nat.le_of_succ_le hjn)) hle
        · exact Nat.le_refl _

/-- A program that attaches a timeout, which advances the clock by some time, and that itself
advances over the deadline of the timeout. -/
def advancer (inner : Nat) : Client Unit Nat (Routine Nat) :=
  .ofRoutines
    (fun
      | 0 => { acts := [.command (.newContext { clock := .manual }),
          .command (.addTimeout ⟨0⟩ .standard 5 true 1), .command (.advance ⟨0⟩ 10)] }
      | _ => { acts := [.command (.advance ⟨0⟩ inner)] })
    []

set_option maxRecDepth 100000 in
/-- An advance from inside that stays before the target of the outer one: the clock stands at 8 when
it has returned, and at 10 in the end. -/
theorem clock_goes_back_only_when_overtaken_advancer :
    let m : Machine Unit Nat (Routine Nat) := .initial () 0
    (∀ k, k < 28 → (m.after (advancer 3) k).overtakes ⟨0⟩ = false) ∧
      (m.after (advancer 3) 15).nestsClock ⟨0⟩ = true ∧
      (m.after (advancer 3) 15).targets ⟨0⟩ = [10] ∧
      (m.after (advancer 3) 20).time ⟨0⟩ = 8 ∧
      (m.after (advancer 3) 20).time ⟨0⟩ ≤ (m.after (advancer 3) 28).time ⟨0⟩ ∧
      (m.after (advancer 3) 28).time ⟨0⟩ = 10 := by
  intro m
  have hnot : ∀ k, k < 28 → (m.after (advancer 3) k).overtakes ⟨0⟩ = false := by decide +kernel
  have hle := (clock_goes_back_only_when_overtaken (advancer 3) () 0 ⟨0⟩).2 28 hnot 20 28
    (by decide) (Nat.le_refl 28)
  exact ⟨hnot, by decide +kernel, by decide +kernel, by decide +kernel, hle, by decide +kernel⟩

set_option maxRecDepth 100000 in
/-- An advance from inside that goes beyond the target of the outer one: when it has returned, the
clock stands at 105, and the outer advance puts it back to 10. -/
theorem goes_back_when_overtaken :
    let m : Machine Unit Nat (Routine Nat) := .initial () 0
    (m.after (advancer 100) 15).overtakes ⟨0⟩ = true ∧
      (m.after (advancer 100) 24).arrival ⟨0⟩ = some 10 ∧
      (m.after (advancer 100) 24).time ⟨0⟩ = 105 ∧
      (m.after (advancer 100) 25).time ⟨0⟩ = 10 ∧
      ((m.after (advancer 100) 25).world.context? ⟨0⟩).map (·.config.clock) = some .manual := by
  decide +kernel

end ObjectSystem
