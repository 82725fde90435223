import ObjectSystem.Proofs.Alike
import ObjectSystem.Proofs.Overtaking
import ObjectSystem.Proofs.Pending

/-!
# The strides of an advance

An advance moves the clock in *strides*: to the next deadline up to its target, or else to the target
itself (`MainContext.stride`). Between two strides it waits for a run until idle, which leaves nothing
pending (`Waiting`); a stride to a deadline always finds something to run.

`Underway` is what holds of an advance that has not come to a time `stop` yet. As long as no callback
moves the clock, it holds after every step, or the advance is about to stride beyond `stop`
(`Underway.step`); until then, an advance to `stop` itself would have done the same.
-/

namespace ObjectSystem

variable {σ β κ : Type}

/-! ## Work that leaves the clock alone -/

/-- What is in progress does not move the clock of a context. -/
structure LeavesClock (c : ContextId) (above : List (Layer β κ)) (control : Control β) : Prop where
  layers : ∀ f, .operation f ∈ above → f.movesClock c = false
  control : ∀ command, control = .perform command → command.movesClock c = false

/-- The same for what a step of an operation leads to. -/
def Progress.LeavesClock (c : ContextId) (p : Progress β) : Prop :=
  (∀ f ∈ p.frames, f.movesClock c = false) ∧
    ∀ command, p.control = .perform command → command.movesClock c = false

theorem Progress.Aside.leavesClock {c : ContextId} {p : Progress β} (h : p.Aside c) :
    p.LeavesClock c := by
  refine ⟨fun f hf => ?_, h.control⟩
  have hframe := h.frames f hf
  unfold Frame.isBystander at hframe
  rw [Bool.and_eq_true, Bool.not_eq_true', Bool.not_eq_true'] at hframe
  exact hframe.2

namespace World

variable (w : World β) {c : ContextId}

theorem leavesClock_drain (d : ContextId) (count : Nat) : (w.drain d count).LeavesClock c := by
  unfold drain
  split
  · exact (Progress.Aside.reply _ _).leavesClock
  · split
    · exact ⟨by simp [Progress.perform, Frame.movesClock],
        fun command hc => by cases hc; rfl⟩
    · exact (Progress.Aside.reply _ _).leavesClock

theorem leavesClock_perform {command : Command β} (h : command.movesClock c = false) :
    (w.perform command).LeavesClock c := by
  cases hdrives : command.drives c with
  | false => exact (w.aside_perform hdrives).leavesClock
  | true =>
      cases command with
      | runUntilIdle d => exact w.leavesClock_drain d 0
      | iterate d =>
          show (w.iterate d).LeavesClock c
          unfold iterate
          split
          · exact (Progress.Aside.reply _ _).leavesClock
          · split
            all_goals
              refine ⟨?_, fun _ hc => (by cases hc)⟩
              simp [Progress.proceed, Frame.movesClock]
      | advance d duration => cases hdrives.symm.trans h
      | runLoop l => cases h
      | _ => cases hdrives

theorem leavesClock_resume {frame : Frame β} (h : frame.movesClock c = false) (reply : Reply β) :
    (frame.resume w reply).LeavesClock c := by
  cases hbystander : frame.isBystander c with
  | true => exact (w.aside_resume hbystander reply).leavesClock
  | false =>
      cases frame with
      | drain d count =>
          show (w.continueDrain d count reply).LeavesClock c
          unfold continueDrain
          split
          · exact w.leavesClock_drain d _
          · exact (Progress.Aside.reply _ _).leavesClock
          · exact w.leavesClock_drain d _
      | collect d polled =>
          show (w.collect d polled).LeavesClock c
          unfold collect
          split
          · exact (Progress.Aside.reply _ _).leavesClock
          · refine ⟨?_, fun _ hc => (by cases hc)⟩
            simp [Progress.proceed, Frame.movesClock]
      | advance d target count stage =>
          simp only [Frame.isBystander, Frame.isDriver, h, Bool.not_false, Bool.and_true,
            Bool.not_eq_false'] at hbystander
          cases hbystander.symm.trans h
      | loop l => cases h
      | looped l => cases h
      | _ => cases hbystander

end World

section
variable {c : ContextId} {control : Control β} {above above' below rest stack : List (Layer β κ)}

/-- Some layers above are replaced by layers of which each leaves the clock alone. -/
theorem LeavesClock.replaced (h : LeavesClock c above control) (new : List (Layer β κ))
    (hs : stack = above' ++ rest) (hnew : stack = new ++ (below ++ rest)) (hbelow : below ⊆ above)
    (htop : ∀ f, .operation f ∈ new → f.movesClock c = false) :
    ∀ f, .operation f ∈ above' → f.movesClock c = false := by
  intro f hf
  rw [hs, ← List.append_assoc] at hnew
  rw [List.append_cancel_right hnew] at hf
  rcases List.mem_append.mp hf with hf | hf
  · exact htop f hf
  · exact h.layers f (hbelow hf)

/-- A callback on top is replaced by such layers. It may be what the layers above stand on, but then
they are none. -/
theorem LeavesClock.turned (h : LeavesClock c above control) (new : List (Layer β κ)) {k : κ}
    {inv : Invocation} (hstack : .callback k inv :: below = above ++ rest) (hs : stack = above' ++ rest)
    (hnew : stack = new ++ below) (htop : ∀ f, .operation f ∈ new → f.movesClock c = false) :
    ∀ f, .operation f ∈ above' → f.movesClock c = false := by
  rcases above with _ | ⟨layer, above⟩
  · intro f hf
    rw [hs, show rest = [.callback k inv] ++ below from hstack.symm, ← List.append_assoc] at hnew
    refine htop f ?_
    rw [← List.append_cancel_right hnew]
    exact List.mem_append_left _ hf
  · obtain ⟨rfl, rfl⟩ := List.cons.inj hstack
    exact h.replaced new hs hnew (List.subset_cons_self _ _) htop

/-- What an operation leads to leaves the clock alone. -/
theorem LeavesClock.follows {m' : Machine σ β κ} {p : Progress β} (h : LeavesClock c above control)
    (hs : m'.stack = above' ++ rest) (hf : m'.Follows p (below ++ rest)) (hbelow : below ⊆ above)
    (hp : p.LeavesClock c) : LeavesClock c above' m'.control := by
  refine ⟨h.replaced _ hs hf.stack hbelow fun f hmem => ?_, fun command hc => ?_⟩
  · obtain ⟨g, hg, heq⟩ := List.mem_map.mp hmem
    exact Layer.operation.inj heq ▸ hp.1 g hg
  · exact hp.2 command (hf.control.symm.trans hc)

end

/-- A step on top of some layers goes on leaving the clock alone, unless a callback asks for an
advance or a loop. -/
theorem LeavesClock.step (client : Client σ β κ) {m : Machine σ β κ} {c : ContextId}
    {above above' rest : List (Layer β κ)} (h : LeavesClock c above m.control)
    (hs : m.stack = above ++ rest) (htop : above ≠ [] ∨ ∀ reply, m.control ≠ .deliver reply)
    (hasked : ∀ command, (m.step client).asked = some command → command.movesClock c = false)
    (hs' : (m.step client).stack = above' ++ rest) :
    LeavesClock c above' (m.step client).control := by
  have delivers {reply : Reply β} (hc : (m.step client).control = .deliver reply) :
      ∀ command, (m.step client).control = .perform command → command.movesClock c = false :=
    fun command hc' => by cases hc.symm.trans hc'
  have callback {k : κ} {inv : Invocation} :
      ∀ f, .operation f ∈ [Layer.callback (β := β) k inv] → f.movesClock c = false :=
    fun f hf => by cases List.mem_singleton.mp hf
  cases Machine.moved_step client m with
  | performs command hm hf =>
      rw [hs] at hf
      exact h.follows hs' hf (List.Subset.refl _) (m.world.leavesClock_perform (h.control command hm))
  | resumes frame reply stack hm hstack hf =>
      rcases above with _ | ⟨layer, below⟩
      · exact absurd hm ((htop.resolve_left fun hne => hne rfl) reply)
      · obtain ⟨rfl, rfl⟩ := List.cons.inj (hstack.symm.trans hs)
        exact h.follows hs' hf (List.subset_cons_self _ _)
          (m.world.leavesClock_resume (h.layers frame List.mem_cons_self) reply)
  | enters k inv reply hm hw hnew hc =>
      rw [hs] at hnew
      exact ⟨h.replaced [_] hs' hnew (List.Subset.refl _) callback, delivers hc⟩
  | asks command k k' inv stack hw hstack hnew hc =>
      refine ⟨h.turned [_] (hstack.symm.trans hs) hs' hnew callback, fun command' hc' => ?_⟩
      refine hasked command' ?_
      unfold Machine.asked
      rw [hc', hnew]
  | goesOn reply k k' inv stack hw hstack hnew hc =>
      exact ⟨h.turned [_] (hstack.symm.trans hs) hs' hnew callback, delivers hc⟩
  | leaves reply k inv stack hw hstack hnew hc hr =>
      exact ⟨h.turned [] (hstack.symm.trans hs) hs' hnew (fun f hf => (by cases hf)),
        delivers hc⟩
  | rests reply hw hnew hm hc =>
      rw [hs] at hnew
      exact ⟨h.replaced [] hs' hnew (List.Subset.refl _) (fun f hf => (by cases hf)),
        delivers hc⟩

/-! ## Strides -/

/-- Where the clock goes next on its way to a target, and how far the advance is then. -/
def MainContext.stride (x : MainContext β) (target : Nat) : Nat × AdvanceStage :=
  match x.nextDeadline with
  | none => (target, .after)
  | some deadline =>
    if deadline > target then (target, .after) else (max x.now deadline, .within)

namespace MainContext

variable {x : MainContext β} {target stop deadline : Nat}

theorem stride_of_due (h : x.nextDeadline = some deadline) (hle : deadline ≤ target) :
    x.stride target = (max x.now deadline, .within) := by
  unfold stride
  rw [h]
  exact if_neg (Nat.not_lt.mpr hle)

theorem stride_of_none_due (h : ∀ deadline, x.nextDeadline = some deadline → target < deadline) :
    x.stride target = (target, .after) := by
  unfold stride
  split
  · rfl
  · next deadline hnext => exact if_pos (h deadline hnext)

/-- From a time before the next deadline, the next stride goes where it goes from earlier on. -/
theorem stride_from (h : ∀ deadline, x.nextDeadline = some deadline → stop < deadline)
    (hnow : x.now ≤ stop) (target : Nat) :
    ({ x with now := stop } : MainContext β).stride target = x.stride target := by
  have hsame : ({ x with now := stop } : MainContext β).nextDeadline = x.nextDeadline := rfl
  unfold stride
  rw [hsame]
  split
  · rfl
  · next deadline hnext =>
      have hlt := h deadline hnext
      rw [Nat.max_eq_right (Nat.le_of_lt hlt),
        Nat.max_eq_right (Nat.le_trans hnow (Nat.le_of_lt hlt))]

/-- At a time before the next deadline, nothing becomes pending. -/
theorem pending_at (h : ∀ deadline, x.nextDeadline = some deadline → stop < deadline)
    (hidle : x.pending = false) : ({ x with now := stop } : MainContext β).pending = false := by
  unfold pending at hidle ⊢
  rw [Bool.or_eq_false_iff] at hidle ⊢
  refine ⟨hidle.1, ?_⟩
  show (x.queue.first? x.isStale).any (·.readyAt ≤ stop) = false
  cases hfirst : x.queue.first? x.isStale with
  | none => rfl
  | some e => exact decide_eq_false (Nat.not_le.mpr (h e.readyAt (congrArg (Option.map _) hfirst)))

/-- At its next deadline, a context is pending. -/
theorem pending_at_deadline (h : x.nextDeadline = some deadline) :
    ({ x with now := max x.now deadline } : MainContext β).pending = true := by
  obtain ⟨e, hfirst, rfl⟩ := Option.map_eq_some_iff.mp h
  unfold pending
  rw [Bool.or_eq_true]
  refine .inr ?_
  show (x.queue.first? x.isStale).any (·.readyAt ≤ max x.now e.readyAt) = true
  rw [hfirst]
  exact decide_eq_true (Nat.le_max_right _ _)

end MainContext

namespace World

variable {w : World β} {c : ContextId} {x : MainContext β}

theorem stepClock_eq (hx : w.context? c = some x) (target count : Nat) :
    w.stepClock c target count = .perform (w.setTime c (x.stride target).1) (.runUntilIdle c)
      [.advance c target count (x.stride target).2] := by
  unfold stepClock MainContext.stride
  rw [hx]
  dsimp only
  cases x.nextDeadline with
  | none => rfl
  | some deadline =>
      dsimp only
      split <;> rfl

/-- An advance that has not reached its target makes a stride, and counts what ran before. -/
theorem continueAdvance_eq (hx : w.context? c = some x) (target count : Nat)
    {stage : AdvanceStage} (hstage : stage ≠ .after) {ran : Nat} (hran : stage = .within → 0 < ran) :
    w.continueAdvance c target count stage (.count ran) =
      .perform (w.setTime c (x.stride target).1) (.runUntilIdle c)
        [.advance c target (count + ran) (x.stride target).2] := by
  rw [← stepClock_eq hx]
  cases stage with
  | before => rfl
  | within => exact if_neg (Nat.ne_of_gt (hran rfl))
  | after => exact absurd rfl hstage

theorem context?_setTime (hx : w.context? c = some x) (now : Nat) :
    (w.setTime c now).context? c = some { x with now } := by
  unfold setTime
  rw [context?_modifyContext, if_pos rfl, hx]
  rfl

theorem setTime_setTime (w : World β) (c : ContextId) (now later : Nat) :
    (w.setTime c now).setTime c later = w.setTime c later := by
  unfold setTime modifyContext Table.modify
  simp only [List.map_map]
  congr 2
  refine List.map_congr_left fun entry _ => ?_
  by_cases h : entry.1 = c <;> simp [h]

end World

/-! ## What an advance waits for -/

/-- What an advance of a context waits for, with nothing of it on the stack but what is above the
given layers. -/
inductive Waiting (c : ContextId) (stage : AdvanceStage) (above base : List (Layer β κ))
    (m : Machine σ β κ) : Prop
  /-- It asks for a run until idle. At a deadline, something is pending. -/
  | asks (hs : above = []) (hm : m.control = .perform (.runUntilIdle c))
      (hdue : stage = .within → m.world.Pending c)
  | drains (h : Draining c base m)
  /-- It hears how much has run, and nothing is pending any more. -/
  | hears (ran : Nat) (hs : above = []) (hm : m.control = .deliver (.count ran))
      (hran : stage = .within → 0 < ran) (x : MainContext β) (hx : m.world.context? c = some x)
      (hidle : x.pending = false)

section
variable {client : Client σ β κ} {m : Machine σ β κ} {c : ContextId} {stage : AdvanceStage}
  {above base : List (Layer β κ)}

/-- With nothing but one operation gone that held a context which is held below as well, a tidy state
stays tidy. -/
theorem Machine.step_of_reply (htidy : m.isTidy client = true)
    (hcontrol : ∀ h ∈ m.control.handles, h = .context c)
    (hstack : m.stack = base ∨ ∃ count, m.stack = .operation (.drain c count) :: base)
    (hbase : .context c ∈ base.flatMap (Machine.layerHandles client)) {count : Nat}
    (hadvance : m.advance client = m.follow client base (.reply m.world (.count count))) :
    m.step client = m.busyWith base (.deliver (.count count)) := by
  refine step_of_tidy hadvance (tidy_busyWith htidy (fun h hmem => .inl ?_) ?_)
  · show h ∈ base.flatMap (layerHandles client)
    rcases List.mem_append.mp hmem with hmem | hmem
    · rw [hcontrol h hmem]
      exact hbase
    · rcases hstack with hs | ⟨count, hs⟩
      · rwa [hs] at hmem
      · rw [hs, List.flatMap_cons] at hmem
        rcases List.mem_append.mp hmem with hmem | hmem
        · rw [List.mem_singleton.mp hmem]
          exact hbase
        · exact hmem
  · rcases hstack with hs | ⟨count, hs⟩
    · rw [hs]
    · rw [hs]
      rfl

/-- An advance goes on waiting until it hears how much has run. -/
theorem Waiting.step (h : Waiting c stage above base m) (hs : m.stack = above ++ base)
    (htop : above ≠ [] ∨ ∀ reply, m.control ≠ .deliver reply) (htidy : m.isTidy client = true)
    (hbase : .context c ∈ base.flatMap (Machine.layerHandles client))
    (hexists : m.world.timetable? c ≠ none) (hsound : (m.desk c).Sound)
    {above' : List (Layer β κ)} (hs' : (m.step client).stack = above' ++ base) :
    Waiting c stage above' base (m.step client) := by
  -- an answer is heard in the world in which nothing was pending
  have hears {count : Nat} (hstep : m.step client = m.busyWith base (.deliver (.count count)))
      (hran : stage = .within → 0 < count) {x : MainContext β}
      (hx : m.world.context? c = some x) (hidle : x.pending = false) :
      Waiting c stage above' base (m.step client) := by
    rw [hstep] at hs' ⊢
    exact .hears count (List.self_eq_append_left.mp hs') rfl hran x hx hidle
  cases h with
  | asks habove hm hdue =>
      rw [habove, List.nil_append] at hs
      have hadvance : m.advance client = m.follow client base (m.world.drain c 0) := by
        rw [← hs]
        exact Machine.advance_perform client hm
      rcases Draining.of_drain client hexists hadvance with h | ⟨⟨x, hx, hidle⟩, hreply⟩
      · exact .drains h
      · refine hears (Machine.step_of_reply htidy ?_ (.inl hs) hbase hreply) (fun hstage => ?_)
          hx hidle
        · rw [hm]
          exact fun h hmem => List.mem_singleton.mp hmem
        · obtain ⟨y, hy, hpending⟩ := hdue hstage
          obtain rfl := Option.some.inj (hx.symm.trans hy)
          cases hidle.symm.trans hpending
  | drains h =>
      rcases h.step client hexists hsound with h | ⟨count, hs, hm, ⟨x, hx, hidle⟩, hreply⟩
      · exact .drains h
      · refine hears (Machine.step_of_reply htidy ?_ (.inr ⟨count, hs⟩) hbase hreply)
          (fun _ => Nat.succ_pos count) hx hidle
        rw [hm]
        exact fun h hmem => (by cases hmem)
  | hears ran habove hm hran x hx hidle =>
      exact absurd hm ((htop.resolve_left fun hne => hne habove) _)

end

/-! ## Advances under way -/

/-- An advance to some target is in progress and has not gone beyond an earlier time. -/
structure Underway (client : Client σ β κ) (c : ContextId) (stop target count : Nat)
    (stage : AdvanceStage) (above base : List (Layer β κ)) (m : Machine σ β κ) : Prop where
  stack : m.stack = above ++ .operation (.advance c target count stage) :: base
  waiting : Waiting c stage above (.operation (.advance c target count stage) :: base) m
  leaves : LeavesClock c above m.control
  time : m.time c ≤ stop
  unfinished : stage ≠ .after
  tidy : m.isTidy client = true

section
variable {client : Client σ β κ} {m : Machine σ β κ} {c : ContextId}
  {stop target count : Nat} {stage : AdvanceStage} {above base : List (Layer β κ)}

/-- An advance on top of a tidy state makes a stride. -/
theorem Machine.step_of_stride (htidy : m.isTidy client = true)
    (hs : m.stack = .operation (.advance c target count stage) :: base) (hstage : stage ≠ .after)
    {ran : Nat} (hm : m.control = .deliver (.count ran)) (hran : stage = .within → 0 < ran)
    {x : MainContext β} (hx : m.world.context? c = some x) :
    m.step client = (m.setClock c (x.stride target).1).busyWith
      (.operation (.advance c target (count + ran) (x.stride target).2) :: base)
      (.perform (.runUntilIdle c)) := by
  refine step_of_tidy ?_ ?_
  · rw [advance_resume client hm hs]
    show m.follow client base (m.world.continueAdvance c target count stage (.count ran)) = _
    rw [World.continueAdvance_eq hx target count hstage hran]
    rfl
  · refine tidy_setClock (tidy_busyWith htidy (fun h hmem => .inl ?_) ?_) c _
    · rw [hm, hs] at hmem
      exact List.mem_cons_of_mem _ hmem
    · rw [hs]
      rfl

/-- An advance is about to make a stride, and nothing is due up to some time. -/
structure Poised (c : ContextId) (stop : Nat) (stage : AdvanceStage) (above : List (Layer β κ))
    (m : Machine σ β κ) (ran : Nat) (x : MainContext β) : Prop where
  top : above = []
  heard : m.control = .deliver (.count ran)
  has_run : stage = .within → 0 < ran
  context : m.world.context? c = some x
  idle : x.pending = false
  none_due : ∀ deadline, x.nextDeadline = some deadline → stop < deadline

theorem holdsSame_of_advance (above : List (Layer β κ))
    (hs : m.stack = above ++ .operation (.advance c target count stage) :: base)
    (other n : Nat) :
    m.HoldsSame client (above ++ .operation (.advance c other n stage) :: base) m.control := by
  constructor
  · rw [hs, List.flatMap_append, List.flatMap_append]
    rfl
  · rw [hs, List.flatMap_append, List.flatMap_append]
    rfl

/-- An advance under way and one to an earlier time, otherwise the same. -/
inductive Leads (client : Client σ β κ) (c : ContextId) (stop target : Nat)
    (base : List (Layer β κ)) (m q : Machine σ β κ) : Prop
  | of (above : List (Layer β κ)) (count : Nat) (stage : AdvanceStage)
      (h : Underway client c stop target count stage above base m)
      (hq : q = m.busyWith (above ++ .operation (.advance c stop count stage) :: base) m.control)

/-- Until the advance hears something, what it stands on does not matter. -/
theorem Underway.goesOn (h : Underway client c stop target count stage above base m)
    (hsound : (m.desk c).Sound) (hexists : m.world.timetable? c ≠ none)
    (hasked : ∀ command, (m.step client).asked = some command → command.movesClock c = false)
    (htop : above ≠ [] ∨ ∀ reply, m.control ≠ .deliver reply) (hnot : ¬ m.Ticking c) :
    Leads client c stop target base (m.step client)
      ((m.busyWith (above ++ .operation (.advance c stop count stage) :: base) m.control).step
        client) := by
  obtain ⟨above', hs', hstep⟩ := Machine.step_above client
    (.operation (.advance c stop count stage) :: base) h.stack htop rfl rfl
  refine ⟨above', count, stage, ⟨hs', ?_, ?_, ?_, h.unfinished, Machine.tidy_step client m⟩, hstep⟩
  · exact h.waiting.step h.stack htop h.tidy (List.mem_append_left _ (List.mem_singleton_self _))
      hexists hsound hs'
  · exact h.leaves.step client h.stack htop hasked hs'
  · rw [time_step_of_not_ticking client hnot]
    exact h.time

/-- An advance under way and one to `stop` make the same stride to a deadline that is not later. -/
theorem Underway.strides (h : Underway client c stop target count stage above base m)
    (hle : stop ≤ target) (habove : above = []) {ran : Nat} (hm : m.control = .deliver (.count ran))
    (hran : stage = .within → 0 < ran) {x : MainContext β} (hx : m.world.context? c = some x)
    {deadline : Nat} (hnext : x.nextDeadline = some deadline) (hdeadline : deadline ≤ stop) :
    Leads client c stop target base (m.step client)
      ((m.busyWith (above ++ .operation (.advance c stop count stage) :: base) m.control).step
        client) := by
  subst habove
  have hs := h.stack
  rw [List.nil_append] at hs ⊢
  have htidy : (m.busyWith (.operation (.advance c stop count stage) :: base)
      m.control).isTidy client = true :=
    (holdsSame_of_advance [] hs stop count).isTidy.trans h.tidy
  have hstep := Machine.step_of_stride h.tidy hs h.unfinished hm hran hx
  have hstep' := Machine.step_of_stride htidy rfl h.unfinished hm hran hx
  rw [MainContext.stride_of_due hnext (Nat.le_trans hdeadline hle)] at hstep
  rw [MainContext.stride_of_due hnext hdeadline] at hstep'
  have hctx : (m.step client).world.context? c = some { x with now := max x.now deadline } := by
    rw [hstep]
    exact World.context?_setTime hx _
  have hcontrol : (m.step client).control = .perform (.runUntilIdle c) := by
    rw [hstep]
    rfl
  refine ⟨[], count + ran, .within, ⟨?_, .asks rfl hcontrol fun _ => ?_, ⟨?_, ?_⟩, ?_, ?_,
    Machine.tidy_step client m⟩, ?_⟩
  · rw [hstep]
    rfl
  · exact ⟨_, hctx, MainContext.pending_at_deadline hnext⟩
  · exact fun f hf => (by cases hf)
  · intro command hc
    cases hcontrol.symm.trans hc
    rfl
  · have hnow : x.now ≤ stop := by
      have htime := h.time
      rwa [Machine.time_eq (World.timetable?_eq hx)] at htime
    rw [Machine.time_eq (World.timetable?_eq hctx)]
    exact Nat.max_le.mpr ⟨hnow, hdeadline⟩
  · decide
  · rw [hstep', hstep]
    rfl

/-- An advance under way stays so with a step, and one to `stop` does the same, or it is about to go
beyond `stop`. -/
theorem Underway.step (h : Underway client c stop target count stage above base m)
    (hle : stop ≤ target) (hsound : (m.desk c).Sound)
    (hmanual : ∃ t, m.world.timetable? c = some t ∧ t.config.clock = .manual)
    (hasked : ∀ command, (m.step client).asked = some command → command.movesClock c = false) :
    Leads client c stop target base (m.step client)
        ((m.busyWith (above ++ .operation (.advance c stop count stage) :: base) m.control).step
          client) ∨
      ∃ ran x, Poised c stop stage above m ran x := by
  obtain ⟨t, ht, hclock⟩ := hmanual
  have hexists : m.world.timetable? c ≠ none := by
    rw [ht]
    exact Option.some_ne_none t
  cases h.waiting with
  | asks habove hm hdue =>
      exact .inl (h.goesOn hsound hexists hasked (.inr fun reply hc => (by cases hm.symm.trans hc))
        (Machine.not_ticking_of_perform hm fun duration hc => (by cases hc)))
  | drains hdrain =>
      rcases above with _ | ⟨layer, above⟩
      · exact absurd h.stack (Machine.stack_ne_of_busy hdrain.length_lt)
      · refine .inl (h.goesOn hsound hexists hasked (.inl (List.cons_ne_nil _ _)) fun hticking => ?_)
        -- the clock is left alone by what is above
        obtain ⟨_, _, _, _, _, hs, -⟩ := hticking.of_manual fun u hu => by
          cases ht.symm.trans hu
          exact hclock
        obtain ⟨rfl, -⟩ := List.cons.inj (h.stack.symm.trans hs)
        have hmoves := h.leaves.layers _ List.mem_cons_self
        simp [Frame.movesClock] at hmoves
  | hears ran habove hm hran x hx hidle =>
      by_cases hdue : ∃ deadline, x.nextDeadline = some deadline ∧ deadline ≤ stop
      · obtain ⟨deadline, hnext, hdeadline⟩ := hdue
        exact .inl (h.strides hle habove hm hran hx hnext hdeadline)
      · refine .inr ⟨ran, x, habove, hm, hran, hx, hidle, fun deadline hnext => ?_⟩
        exact Nat.lt_of_not_le fun hdeadline => hdue ⟨deadline, hnext, hdeadline⟩

end

end ObjectSystem
