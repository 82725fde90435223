import ObjectSystem.Proofs.Aside

/-!
# The clock keeps its order

`Clockwork` is what holds of a state while the clock of a context is moved from outside, and
`Clockwork.step` carries it through every step. Steps aside of the clock keep it because layers and
timetables keep theirs; the context's own iterations, runs until idle and advances, and loops, are
gone through one by one, and each finds what it counts on.
-/

namespace ObjectSystem

variable {σ β κ : Type}

open Machine (marks)
open Progress (Aside)

/-! ## The invariant -/

/-- What holds while the clock of a context is moved from outside. -/
structure Clockwork (c : ContextId) (since : Nat) (m : Machine σ β κ) : Prop where
  ordered : Ordered c (m.world.timetable? c) m.stack
  movers : ∀ command, m.control = .perform command → command.movesClock c = true →
    Clear c m.stack
  awaits : Awaits c m.world m.control m.stack
  timely : Timely since (m.desk c)

/-- A state in which the invariant holds, about to become another one. -/
structure Running (c : ContextId) (since : Nat) (m m' : Machine σ β κ) : Prop where
  clockwork : Clockwork c since m
  sound : (m.desk c).Sound
  manual : ∀ t, m.world.timetable? c = some t → t.config.clock = .manual
  move : Desk.Move (m.Ticking c) (m.desk c) (m'.desk c)

/-- Whether a layer is a callback or a bystander. -/
def Layer.IsBystander (c : ContextId) (layer : Layer β κ) : Prop :=
  ∀ f, layer = .operation f → f.isBystander c = true

theorem Layer.isBystander_map {c : ContextId} {frames : List (Frame β)}
    (hf : ∀ f ∈ frames, f.isBystander c = true) :
    ∀ layer ∈ frames.map (Layer.operation (κ := κ)), layer.IsBystander c := by
  intro layer hl f hlf
  obtain ⟨g, hg, rfl⟩ := List.mem_map.mp hl
  cases hlf
  exact hf _ hg

/-- Bystanders may be put on a stack on which nothing minds. -/
theorem Ordered.push {c : ContextId} {t? : Option (Timetable β)} {above stack : List (Layer β κ)}
    (ha : ∀ layer ∈ above, layer.IsBystander c) (h : Ordered c t? stack)
    (hd : ¬ DriverOnTop c stack) :
    Ordered c t? (above ++ stack) ∧ ¬ DriverOnTop c (above ++ stack) := by
  induction above with
  | nil => exact ⟨h, hd⟩
  | cons layer rest ih =>
      obtain ⟨hrest, hdrest⟩ := ih fun g hg => ha g (List.mem_cons_of_mem _ hg)
      have hfits : Fits c layer (rest ++ stack) := fits_of_not_driver hdrest
      cases layer with
      | callback k inv => exact ⟨⟨.of_callback k inv hdrest, hrest⟩, id⟩
      | operation f =>
          have hf := ha (.operation f) (by simp) f rfl
          refine ⟨⟨.of_bystander hf hfits, hrest⟩, ?_⟩
          simp only [Frame.isBystander, Bool.and_eq_true, Bool.not_eq_true'] at hf
          simp [DriverOnTop, hf.1]

/-- What is pending is found by an iteration: a due timeout does not run. -/
theorem Desk.Sound.ready_of_pending {w : World β} {c : ContextId} {x : MainContext β}
    {waiting : List SourceId} {running : List (SourceId × Bool)}
    (hs : x.timetable.Sound waiting running) (hx : w.context? c = some x)
    (hp : x.pending = true) : w.TasksReady c ∨ w.SomeReady c := by
  have hready {s : Source β} (hmem : s ∈ x.sources) (hc : x.timetable.Collects s) :
      w.SomeReady c :=
    ⟨x.timetable, World.timetable?_eq hx,
      List.ne_nil_of_mem (Timetable.mem_ready hs.nodup hmem hc)⟩
  rcases (MainContext.pending_iff hs.nodup).mp hp with htasks | ⟨s, hmem, hidle⟩ | ⟨s, hmem, hdue⟩
  · exact .inl ⟨x, hx, htasks⟩
  · exact .inr (hready hmem (.inl hidle))
  · exact .inr (hready hmem (.inr ⟨hdue, (hs.of_armed hmem hdue.1).2⟩))

theorem noneDue_of_not_pending {w : World β} {c : ContextId} {x : MainContext β}
    (hnodup : (x.sources.map (·.id)).Nodup) (hx : w.context? c = some x)
    (hp : x.pending = false) : w.NoneDue c := by
  intro t ht s hmem hdue
  obtain rfl := Option.some.inj ((World.timetable?_eq hx).symm.trans ht)
  cases hp.symm.trans ((MainContext.pending_iff hnodup).mpr (.inr (.inr ⟨s, hmem, hdue⟩)))

/-- A manual clock is set only when an advance goes on. -/
theorem Machine.Ticking.of_manual {m : Machine σ β κ} {c : ContextId} (h : m.Ticking c)
    (hmanual : ∀ t, m.world.timetable? c = some t → t.config.clock = .manual) :
    ∃ target count stage stack reply,
      m.stack = .operation (.advance c target count stage) :: stack ∧
        m.control = .deliver reply := by
  rcases h with ⟨target, count, stage, stack, hs, reply, hc⟩ | ⟨duration, x, -, hx, hclock⟩
  · exact ⟨target, count, stage, stack, reply, hs, hc⟩
  · have := hmanual x.timetable (World.timetable?_eq hx)
    rw [show x.timetable.config.clock = _ from hclock] at this
    cases this

namespace Running

variable {c : ContextId} {since : Nat} {m m' : Machine σ β κ}

theorem ticking (h : Running c since m m') (ht : m.Ticking c) :
    ∃ target count stage stack reply,
      m.stack = .operation (.advance c target count stage) :: stack ∧
        m.control = .deliver reply :=
  ht.of_manual h.manual

/-- A step aside of the clock. -/
theorem aside (h : Running c since m m') (hnot : ¬ m.Ticking c) (above : List (Layer β κ))
    {rest : List (Layer β κ)} (hs : m'.stack = above ++ rest) (ha : ∀ layer ∈ above, layer.IsBystander c)
    (hrest : Ordered c (m.world.timetable? c) rest) (hd : ¬ DriverOnTop c rest)
    (hc : ∀ command, m'.control = .perform command → command.movesClock c = true →
      Clear c m'.stack) : Clockwork c since m' := by
  have hclock := h.move.sameClock hnot
  obtain ⟨hordered, hdriver⟩ := Ordered.push ha (hrest.clock hclock) hd
  refine ⟨?_, hc, ?_, h.clockwork.timely.move h.sound h.move hnot⟩
  · rw [hs]
    exact hordered
  · rw [hs]
    exact awaits_of_not_driver hdriver

/-- A step of an operation that stays aside. -/
theorem follows (h : Running c since m m') (hnot : ¬ m.Ticking c) {p : Progress β}
    {rest : List (Layer β κ)} (hf : m'.Follows p rest) (hp : p.Aside c)
    (hrest : Ordered c (m.world.timetable? c) rest) (hd : ¬ DriverOnTop c rest) :
    Clockwork c since m' := by
  refine h.aside hnot _ hf.stack (Layer.isBystander_map hp.frames) hrest hd ?_
  intro command hc hmoves
  rw [hf.control] at hc
  rw [hp.control command hc] at hmoves
  cases hmoves

/-! ### The context's own operations -/

/-- A run until idle begins or goes on. Below it may be an advance, which is told what it counts on:
at a step of the clock something was due, so at least one iteration has been or will be made. -/
theorem drain (h : Running c since m m') (hnot : ¬ m.Ticking c) {count : Nat}
    {rest : List (Layer β κ)} (hf : m'.Follows (m.world.drain c count) rest)
    (hrest : Ordered c (m.world.timetable? c) rest)
    (hd : DriverOnTop c rest → m.world.timetable? c ≠ none ∧ ∃ target n stage below,
      rest = .operation (.advance c target n stage) :: below ∧
        (stage = .within → m.world.SomeDue c ∨ 0 < count)) :
    Clockwork c since m' := by
  have hclock := h.move.sameClock hnot
  have hsame : Ordered c (m'.world.timetable? c) rest := hrest.clock hclock
  have htimely := h.clockwork.timely.move h.sound h.move hnot
  unfold World.drain at hf
  split at hf
  · next hx =>
      exact h.follows hnot hf (.reply _ _) hrest fun hdriver =>
        (hd hdriver).1 (World.timetable?_eq_none.mpr hx)
  · next x hx =>
      split at hf
      · next hpending =>
          -- an iteration is made, which finds something to do
          have hready := Desk.Sound.ready_of_pending
            (h.sound.present _ (World.timetable?_eq hx)) hx hpending
          refine ⟨?_, ?_, ?_, htimely⟩
          · rw [hf.stack]
            refine ⟨⟨?_, ?_, ?_, ?_⟩, hsame⟩
            · by_cases hdriver : DriverOnTop c rest
              · obtain ⟨-, target, n, stage, below, rfl, -⟩ := hd hdriver
                exact fun _ => ⟨count, rfl⟩
              · exact fits_of_not_driver hdriver
            · rintro f hfeq hmoves
              cases hfeq
              cases hmoves
            · rintro target n stage hfeq
              cases hfeq
            · rintro n -
              obtain ⟨u, hu, -⟩ := hclock _ (World.timetable?_eq hx)
              rw [show m'.world.timetable? c = some u from hu]
              exact Option.some_ne_none u
          · intro command hc hmoves
            rw [hf.control] at hc
            cases hc
            cases hmoves
          · rw [hf.stack]
            refine fun _ => .inl ⟨hf.control, ?_⟩
            exact hready.imp (hf.world.ready c) hf.world.someReady
      · next hpending =>
          rw [Bool.not_eq_true] at hpending
          have hnone := noneDue_of_not_pending
            (h.sound.present _ (World.timetable?_eq hx)).nodup hx hpending
          have hcontrol : m'.control = .deliver (.count count) := hf.control
          refine ⟨?_, ?_, ?_, htimely⟩
          · rw [hf.stack]
            exact hsame
          · intro command hc
            cases hcontrol.symm.trans hc
          · rw [hf.stack]
            show Awaits c _ _ rest
            by_cases hdriver : DriverOnTop c rest
            · obtain ⟨-, target, n, stage, below, rfl, hwithin⟩ := hd hdriver
              refine fun _ => .inr ⟨count, hcontrol, hf.world.noneDue hnone, fun hstage => ?_⟩
              rcases hwithin hstage with ⟨t, ht, s, hs, hdue⟩ | hpos
              · exact absurd hdue (hnone t ht s hs)
              · exact hpos
            · exact awaits_of_not_driver hdriver

/-- An iteration begins. If no task is to be polled, sources are to be run. -/
theorem iterate (h : Running c since m m') (hm : m.control = .perform (.iterate c))
    (hf : m'.Follows (m.world.iterate c) m.stack) : Clockwork c since m' := by
  have hnot : ¬ m.Ticking c := by
    intro ht
    obtain ⟨_, _, _, _, reply, -, hc⟩ := h.ticking ht
    cases hm.symm.trans hc
  have hclock := h.move.sameClock hnot
  have hsame := h.clockwork.ordered.clock hclock
  have htimely := h.clockwork.timely.move h.sound h.move hnot
  -- the iteration stands on a run until idle, or on something that does not mind
  have hbelow : (∃ count rest, m.stack = .operation (.drain c count) :: rest ∧
      (m.world.TasksReady c ∨ m.world.SomeReady c)) ∨ ¬ DriverOnTop c m.stack := by
    rcases h.clockwork.awaits.cases with ⟨-, -, -, -, -, ⟨hc, -⟩ | ⟨n, hc, -⟩⟩ |
      ⟨count, rest, hs, ⟨-, hready⟩ | hc⟩ | ⟨-, -, reply, hc⟩ | hd
    · cases hm.symm.trans hc
    · cases hm.symm.trans hc
    · exact .inl ⟨count, rest, hs, hready⟩
    · cases hm.symm.trans hc
    · cases hm.symm.trans hc
    · exact .inr hd
  have hfits (polled : Bool) : Fits c (.operation (.collect c polled)) m.stack := by
    rcases hbelow with ⟨count, rest, hs, -⟩ | hd
    · rw [hs]
      exact fun _ => .inl ⟨polled, rfl⟩
    · exact fits_of_not_driver hd
  have hplaced (polled : Bool) :
      Placed c (m'.world.timetable? c) (.operation (.collect c polled)) m.stack := by
    refine ⟨hfits polled, ?_, ?_, ?_⟩
    · rintro f hfeq hmoves
      cases hfeq
      cases hmoves
    · rintro target n stage hfeq
      cases hfeq
    · rintro n hfeq
      cases hfeq
  unfold World.iterate at hf
  split at hf
  · next hx =>
      refine h.follows hnot hf (.reply _ _) h.clockwork.ordered ?_
      rcases hbelow with ⟨count, rest, hs, -⟩ | hd
      · have hordered := h.clockwork.ordered
        rw [hs] at hordered
        exact absurd (World.timetable?_eq_none.mpr hx) (hordered.1.exist count rfl)
      · exact hd
  · next x hx =>
      have hcontrol : m'.control = .deliver .proceed := by
        rw [hf.control]
        split <;> rfl
      have hmovers : ∀ command, m'.control = .perform command →
          command.movesClock c = true → Clear c m'.stack := by
        intro command hc
        cases hcontrol.symm.trans hc
      split at hf
      · refine ⟨?_, hmovers, ?_, htimely⟩
        · rw [hf.stack]
          exact ⟨.of_bystander rfl fun _ => rfl, hplaced true, hsame⟩
        · rw [hf.stack]
          trivial
      · next hpass =>
          refine ⟨?_, hmovers, ?_, htimely⟩
          · rw [hf.stack]
            exact ⟨hplaced false, hsame⟩
          · rw [hf.stack]
            refine fun _ _ => ⟨⟨.proceed, hcontrol⟩, fun count rest hs => ?_⟩
            have hs : m.stack = .operation (.drain c count) :: rest := hs
            rcases hbelow with ⟨-, -, -, htasks | hsome⟩ | hd
            · obtain ⟨y, hy, hready⟩ := htasks
              obtain rfl := Option.some.inj (hx.symm.trans hy)
              unfold MainContext.beginPass at hpass
              rw [if_pos hready] at hpass
              cases hpass
            · exact hf.world.someReady hsome
            · rw [hs] at hd
              exact absurd (by simp [DriverOnTop, Frame.isDriver]) hd

/-- The sources of an iteration are collected. On a run until idle, the iteration does something. -/
theorem collect (h : Running c since m m') {polled : Bool} {rest : List (Layer β κ)}
    (hs : m.stack = .operation (.collect c polled) :: rest)
    (hf : m'.Follows (m.world.collect c polled) rest) : Clockwork c since m' := by
  have hnot : ¬ m.Ticking c := by
    intro ht
    obtain ⟨_, _, _, _, _, hs', -⟩ := h.ticking ht
    cases hs.symm.trans hs'
  have hordered := h.clockwork.ordered
  have hawaits := h.clockwork.awaits
  rw [hs] at hordered hawaits
  have hcases := hordered.1.fits.cases
  unfold World.collect at hf
  split at hf
  · next hx =>
      refine h.follows hnot hf (.reply _ _) hordered.2 ?_
      rcases hcases with ⟨_, _, _, _, _, _, hupper⟩ | ⟨n, below, rfl, -⟩ | hd
      · cases hupper
      · exact absurd (World.timetable?_eq_none.mpr hx) (hordered.2.1.exist n rfl)
      · exact hd
  · next x hx =>
      have hcontrol : m'.control = .deliver .proceed := hf.control
      have hstack : m'.stack = .operation (.iteration c x.collectReady.2
          (polled || !x.collectReady.2.isEmpty)) :: rest := hf.stack
      refine ⟨?_, ?_, ?_, h.clockwork.timely.move h.sound h.move hnot⟩
      · rw [hstack]
        refine ⟨.of_bystander rfl ?_, hordered.2.clock (h.move.sameClock hnot)⟩
        rcases hcases with ⟨_, _, _, _, _, _, hupper⟩ | ⟨n, below, rfl, -⟩ | hd
        · cases hupper
        · refine fun _ => .inr ⟨x.collectReady.2, ?_⟩
          have hworked : (polled || !x.collectReady.2.isEmpty) = true := by
            cases polled with
            | true => rfl
            | false =>
                obtain ⟨-, hsome⟩ := hawaits rfl rfl
                obtain ⟨t, ht, hne⟩ := hsome n below rfl
                obtain rfl := Option.some.inj ((World.timetable?_eq hx).symm.trans ht)
                rw [MainContext.ready_collectReady]
                simpa using hne
          rw [hworked]
        · exact fits_of_not_driver hd
      · intro command hc
        cases hcontrol.symm.trans hc
      · rw [hstack]
        trivial

/-- An iteration of a run until idle goes on, or ends and says that it did something. -/
theorem iteration (h : Running c since m m') {ready : List SourceId} {rest : List (Layer β κ)}
    (hs : m.stack = .operation (.iteration c ready true) :: rest)
    (hf : m'.Follows (m.world.continueIteration c ready true) rest) : Clockwork c since m' := by
  have hnot : ¬ m.Ticking c := by
    intro ht
    obtain ⟨_, _, _, _, _, hs', -⟩ := h.ticking ht
    cases hs.symm.trans hs'
  have hordered := h.clockwork.ordered
  rw [hs] at hordered
  have hcases := hordered.1.fits.cases
  cases ready with
  | nil =>
      have hcontrol : m'.control = .deliver (.flag true) := hf.control
      have hstack : m'.stack = rest := hf.stack
      refine ⟨?_, ?_, ?_, h.clockwork.timely.move h.sound h.move hnot⟩
      · rw [hstack]
        exact hordered.2.clock (h.move.sameClock hnot)
      · intro command hc
        cases hcontrol.symm.trans hc
      · rw [hstack]
        rcases hcases with ⟨_, _, _, _, _, _, hupper⟩ | ⟨n, below, rfl, -⟩ | hd
        · cases hupper
        · exact fun _ => .inr hcontrol
        · exact awaits_of_not_driver hd
  | cons id ready =>
      -- the rest of the iteration stands where the iteration stood
      have hplaced : Ordered c (m.world.timetable? c)
          (.operation (.iteration c ready true) :: rest) := by
        refine ⟨.of_bystander rfl ?_, hordered.2⟩
        rcases hcases with ⟨_, _, _, _, _, _, hupper⟩ | ⟨n, below, rfl, -⟩ | hd
        · cases hupper
        · exact fun _ => .inr ⟨ready, rfl⟩
        · exact fits_of_not_driver hd
      have hd : ¬ DriverOnTop c (.operation (.iteration c ready true) :: rest) := by
        simp [DriverOnTop, Frame.isDriver]
      have hc := (World.aside_continueIteration (c := c) m.world c (id :: ready) true).control
      rw [← hf.control] at hc
      obtain ⟨above, habove, hstack⟩ : ∃ above : List (Frame β),
          (∀ f ∈ above, f.isBystander c = true) ∧
          m'.stack = above.map .operation ++ .operation (.iteration c ready true) :: rest := by
        unfold World.continueIteration at hf
        dsimp only at hf
        split at hf
        · exact ⟨[], by simp, hf.stack⟩
        · next y work hbegin =>
            obtain ⟨-, -, above, hmark, hframes⟩ := Turn.startWork_frames
              (m.world.setContext c y) c id work
              [.sourceEnd c id work.mayStay, .iteration c ready true]
            have hall := (World.aside_startWork (c := c) (m.world.setContext c y) c id work
              [.sourceEnd c id work.mayStay, .iteration c ready true]
              (by simp [Frame.isBystander, Frame.isDriver, Frame.movesClock])).frames
            rw [hframes] at hall
            refine ⟨above ++ [.sourceEnd c id work.mayStay], ?_, ?_⟩
            · intro f hmem
              refine hall f ?_
              rcases List.mem_append.mp hmem with hmem | hmem
              · exact List.mem_append_left _ hmem
              · exact List.mem_append_right _ (by rw [List.mem_singleton.mp hmem]; simp)
            · rw [hf.stack, hframes]
              simp
      refine h.aside hnot _ hstack (Layer.isBystander_map habove) hplaced hd ?_
      intro command hcmd hmoves
      rw [hc command hcmd] at hmoves
      cases hmoves

end Running

/-! ### The clock moves -/

/-- Without marks on the stack, no source waits or runs. -/
theorem Machine.desk_of_unmarked {m : Machine σ β κ} (h : marks m.stack = []) (c : ContextId) :
    (m.desk c).waiting = [] ∧ (m.desk c).running = [] :=
  Machine.desk_of_marks h c

/-- Below a clock that moves there are no marks, so no source waits or runs. -/
theorem Ordered.desk {m : Machine σ β κ} {c : ContextId} {t? : Option (Timetable β)} {f : Frame β}
    {rest : List (Layer β κ)} (hs : m.stack = .operation f :: rest)
    (h : Ordered c t? (.operation f :: rest)) (hf : f.movesClock c = true) :
    (m.desk c).waiting = [] ∧ (m.desk c).running = [] := by
  refine Machine.desk_of_unmarked ?_ c
  have hmark : f.isMark = false := by
    cases f <;> first | rfl | cases hf
  rw [hs, Machine.marks_operation, hmark]
  exact (h.1.moves f rfl hf).marks

namespace Running

variable {c : ContextId} {since : Nat} {m m' : Machine σ β κ} {target count : Nat}
  {stage : AdvanceStage} {rest : List (Layer β κ)}

/-- When an advance goes on, no source waits or runs, every timeout is in the queue, and none of
them is due. -/
theorem at_rest (h : Running c since m m')
    (hs : m.stack = .operation (.advance c target count stage) :: rest)
    (hnone : m.world.NoneDue c) {t : Timetable β} (ht : m.world.timetable? c = some t) :
    ∀ s ∈ t.sources, s.kind.isIdle = false →
      t.Armed s ∧ s.running = false ∧ t.now < s.readyAt := by
  have hordered := h.clockwork.ordered
  rw [hs] at hordered
  obtain ⟨hwaiting, hrunning⟩ := hordered.desk hs (by simp [Frame.movesClock])
  have hsound := h.sound.present t ht
  rw [hwaiting, hrunning] at hsound
  intro s hmem hkind
  have hrun : s.running = false := by
    have := hsound.runs s hmem
    simpa using this
  have harmed := hsound.armed_of_at_rest hmem hkind List.not_mem_nil hrun
  exact ⟨harmed, hrun, Nat.lt_of_not_le fun hle => hnone t ht s hmem ⟨harmed, hle⟩⟩

/-- The clock is set to a time that no deadline comes before. -/
theorem tick (h : Running c since m m')
    (hs : m.stack = .operation (.advance c target count stage) :: rest)
    (hnone : m.world.NoneDue c) {now count' : Nat} {stage' : AdvanceStage} {t : Timetable β}
    (ht : m.world.timetable? c = some t)
    (hf : m'.Follows (.perform (m.world.setTime c now) (.runUntilIdle c)
      [.advance c target count' stage']) rest)
    (hnow : ∀ s ∈ t.sources, t.Armed s → now ≤ s.readyAt)
    (hle : now ≤ target) (hafter : stage' = .after → now = target)
    (hwithin : stage' = .within → ∃ s ∈ t.sources, t.Armed s ∧ s.readyAt ≤ now) :
    Clockwork c since m' := by
  have hordered := h.clockwork.ordered
  rw [hs] at hordered
  have hclear := hordered.1.moves _ rfl (by simp [Frame.movesClock])
  have hset : (m.world.setTime c now).timetable? c = some { t with now } := by
    rw [World.timetable?_setTime, if_pos rfl, ht]
    rfl
  have ht' : m'.world.timetable? c = some { t with now } := (hf.world.timetable c).trans hset
  have hstack : m'.stack = .operation (.advance c target count' stage') :: rest := hf.stack
  have hcontrol : m'.control = .perform (.runUntilIdle c) := hf.control
  have hwaiting : (m'.desk c).waiting = [] := by
    refine (Machine.desk_of_unmarked ?_ c).1
    rw [hstack]
    exact hclear.marks
  refine ⟨?_, ?_, ?_, ?_⟩
  · rw [hstack]
    refine ⟨⟨?_, fun f hf hmoves => hclear, ?_, ?_⟩, hordered.2.clear hclear⟩
    · refine fits_of_not_driver (not_driver_of_fits hordered.1.fits ?_)
      rintro f hf
      cases hf
      exact ⟨fun _ hf => (by cases hf), fun _ hf => (by cases hf), fun _ hf => (by cases hf)⟩
    · rintro target' n stage'' hf
      cases hf
      exact ⟨_, ht', hle, hafter⟩
    · rintro n hf
      cases hf
  · intro command hc hmoves
    rw [hcontrol] at hc
    cases hc
    cases hmoves
  · rw [hstack]
    refine fun _ => .inl ⟨hcontrol, fun hstage => ?_⟩
    obtain ⟨s, hmem, harmed, hready⟩ := hwithin hstage
    exact ⟨_, ht', s, hmem, harmed, hready⟩
  · intro u hu s hmem _ hkind
    obtain rfl := Option.some.inj (ht'.symm.trans hu)
    refine ⟨hnow s hmem (h.at_rest hs hnone ht s hmem hkind).1, fun hin => ?_⟩
    rw [hwaiting] at hin
    cases hin

/-- An advance goes on. Something has run at each step of the clock, so it never gives up early. -/
theorem advance (h : Running c since m m') {reply : Reply β}
    (hm : m.control = .deliver reply)
    (hs : m.stack = .operation (.advance c target count stage) :: rest)
    (hf : m'.Follows (m.world.continueAdvance c target count stage reply) rest) :
    Clockwork c since m' := by
  have hordered := h.clockwork.ordered
  have hawaits := h.clockwork.awaits
  rw [hs] at hordered hawaits
  obtain ⟨t, ht, hle, hafter⟩ := hordered.1.target target count stage rfl
  obtain ⟨x, hx, rfl⟩ := Option.map_eq_some_iff.mp ht
  have hctx : m.world.context? c = some x := hx
  rcases hawaits rfl with ⟨hc, -⟩ | ⟨n, hc, hnone, hran⟩
  · cases hm.symm.trans hc
  cases Control.deliver.inj (hm.symm.trans hc)
  have hrest := h.at_rest hs hnone ht
  have hnodup := (h.sound.present _ ht).nodup
  have hstep (ran : Nat) (hf : m'.Follows (m.world.stepClock c target ran) rest) :
      Clockwork c since m' := by
    unfold World.stepClock at hf
    rw [hctx] at hf
    dsimp only at hf
    split at hf
    · next hdeadline =>
        refine h.tick hs hnone ht hf ?_ (Nat.le_refl _) (fun _ => rfl) (fun hw => (by cases hw))
        intro s hmem harmed
        exact absurd harmed (MainContext.not_armed_of_nextDeadline hnodup hdeadline hmem)
    · next deadline hdeadline =>
        obtain ⟨⟨s, hmem, harmed, hready⟩, hall⟩ := MainContext.nextDeadline_spec hnodup hdeadline
        split at hf
        · next hlate =>
            refine h.tick hs hnone ht hf ?_ (Nat.le_refl _) (fun _ => rfl) (fun hw => (by cases hw))
            intro s hmem harmed
            have := hall s hmem harmed
            omega
        · next hlate =>
            have hdue : x.now < deadline := by
              have hkind := ((h.sound.present _ ht).of_armed hmem harmed).1
              rw [← hready]
              exact (hrest s hmem hkind).2.2
            have hmax : max x.now deadline = deadline := by omega
            rw [hmax] at hf
            refine h.tick hs hnone ht hf (fun s hmem harmed => hall s hmem harmed) (by omega)
              (fun hw => (by cases hw)) fun _ => ⟨s, hmem, harmed, Nat.le_of_eq hready⟩
  unfold World.continueAdvance at hf
  dsimp only at hf
  cases stage with
  | before => exact hstep _ hf
  | within =>
      dsimp only at hf
      rw [if_neg (by have := hran rfl; omega)] at hf
      exact hstep _ hf
  | after =>
      -- the advance is done, and the clock stands where it stood
      have hsteady : m'.world.timetable? c = m.world.timetable? c := hf.world.timetable c
      have hd : ¬ DriverOnTop c rest := by
        refine not_driver_of_fits hordered.1.fits ?_
        rintro f hf
        cases hf
        exact ⟨fun _ hf => (by cases hf), fun _ hf => (by cases hf), fun _ hf => (by cases hf)⟩
      have hstack : m'.stack = rest := hf.stack
      have hcontrol : m'.control = .deliver (.count (count + n)) := hf.control
      refine ⟨?_, ?_, ?_, ?_⟩
      · rw [hstack, hsteady]
        exact hordered.2
      · intro command hc
        cases hcontrol.symm.trans hc
      · rw [hstack]
        exact awaits_of_not_driver hd
      · intro u hu s hmem hsince hkind
        obtain rfl := Option.some.inj (ht.symm.trans (hsteady.symm.trans hu))
        refine ⟨Nat.le_of_lt (hrest s hmem hkind).2.2, fun hin => ?_⟩
        have hclear := hordered.1.moves _ rfl (by simp [Frame.movesClock])
        have hwaiting : (m'.desk c).waiting = [] := by
          refine (Machine.desk_of_unmarked ?_ c).1
          rw [hstack, hclear.marks]
        rw [hwaiting] at hin
        cases hin

/-- An advance begins. -/
theorem begin (h : Running c since m m') {duration : Nat}
    (hm : m.control = .perform (.advance c duration))
    (hf : m'.Follows (m.world.advance c duration) m.stack) : Clockwork c since m' := by
  have hnot : ¬ m.Ticking c := by
    intro ht
    obtain ⟨_, _, _, _, reply, -, hc⟩ := h.ticking ht
    cases hm.symm.trans hc
  have hd := h.clockwork.awaits.not_driver (by simp [hm]) (by simp [hm]) (by simp [hm])
  have hclear := h.clockwork.movers _ hm (by simp [Command.movesClock])
  unfold World.advance at hf
  split at hf
  · exact h.follows hnot hf (.reply _ _) h.clockwork.ordered hd
  · next x hx =>
      have hclock := h.move.sameClock hnot
      obtain ⟨u, hu, hnow, -⟩ := hclock _ (World.timetable?_eq hx)
      dsimp only at hf
      split at hf
      · have hstack : m'.stack =
            .operation (.advance c (x.now + duration) 0 .before) :: m.stack := hf.stack
        have hcontrol : m'.control = .perform (.runUntilIdle c) := hf.control
        refine ⟨?_, ?_, ?_, h.clockwork.timely.move h.sound h.move hnot⟩
        · rw [hstack]
          refine ⟨⟨fits_of_not_driver hd, fun _ _ _ => hclear, ?_, ?_⟩,
            h.clockwork.ordered.clock hclock⟩
          · rintro target n stage hf
            cases hf
            refine ⟨u, hu, ?_, fun hw => (by cases hw)⟩
            rw [hnow]
            exact Nat.le_add_right _ _
          · rintro n hf
            cases hf
        · intro command hc hmoves
          rw [hcontrol] at hc
          cases hc
          cases hmoves
        · rw [hstack]
          exact fun _ => .inl ⟨hcontrol, fun hw => (by cases hw)⟩
      · next hsystem =>
          have := h.manual _ (World.timetable?_eq hx)
          rw [show x.timetable.config.clock = _ from hsystem] at this
          cases this

/-- Loops stand where nothing minds and no source waits, and leave it so. -/
theorem loops (h : Running c since m m') (hnot : ¬ m.Ticking c) {frames : List (Frame β)}
    (hs : m'.stack = frames.map .operation ++ rest)
    (hframes : ∀ f ∈ frames, f.isMark = false ∧ f.isDriver c = false)
    (hrest : Ordered c (m.world.timetable? c) rest) (hd : ¬ DriverOnTop c rest)
    (hclear : Clear c rest) : Clockwork c since m' := by
  have hpush : ∀ fs : List (Frame β), (∀ f ∈ fs, f.isMark = false ∧ f.isDriver c = false) →
      Ordered c (m'.world.timetable? c) (fs.map .operation ++ rest) ∧
        ¬ DriverOnTop c (fs.map .operation ++ rest) ∧ Clear c (fs.map .operation ++ rest) := by
    intro fs hfs
    induction fs with
    | nil => exact ⟨hrest.clock (h.move.sameClock hnot), hd, hclear⟩
    | cons f fs ih =>
        obtain ⟨hordered, hdriver, hclear'⟩ := ih fun g hg => hfs g (List.mem_cons_of_mem _ hg)
        have hf := hfs f (by simp)
        refine ⟨⟨⟨fits_of_not_driver hdriver, fun _ _ _ => hclear', ?_, ?_⟩, hordered⟩, ?_, ?_⟩
        · rintro target n stage hl
          cases hl
          simp [Frame.isDriver] at hf
        · rintro n hl
          cases hl
          simp [Frame.isDriver] at hf
        · simp [DriverOnTop, hf.2]
        · rintro g hg
          rcases List.mem_cons.mp hg with hg | hg
          · cases hg
            exact hf
          · exact hclear' g hg
  obtain ⟨hordered, hdriver, hclear'⟩ := hpush frames hframes
  rw [← hs] at hordered hdriver hclear'
  exact ⟨hordered, fun _ _ _ => hclear', awaits_of_not_driver hdriver,
    h.clockwork.timely.move h.sound h.move hnot⟩

end Running

namespace World

variable (w : World β) (c : ContextId)

theorem frames_checkLoop (l : LoopId) :
    ∀ f ∈ (w.checkLoop l).frames, f.isMark = false ∧ f.isDriver c = false := by
  unfold checkLoop
  split
  · exact fun _ hf => (by cases hf)
  · split
    · simp [Progress.perform, Frame.isMark, Frame.isDriver]
    · exact fun _ hf => (by cases hf)

theorem frames_continueLoop (l : LoopId) (reply : Reply β) :
    ∀ f ∈ (w.continueLoop l reply).frames, f.isMark = false ∧ f.isDriver c = false := by
  unfold continueLoop
  split
  · exact frames_checkLoop w c l
  · split
    · exact fun _ hf => (by cases hf)
    · split
      · exact fun _ hf => (by cases hf)
      · split
        · simp [Progress.perform, Frame.isMark, Frame.isDriver]
        · split
          · exact frames_checkLoop w c l
          · exact fun _ hf => (by cases hf)

end World

/-! ### Every step -/

namespace Running

variable {c : ContextId} {since : Nat} {m m' : Machine σ β κ}

theorem performs (h : Running c since m m') {command : Command β}
    (hm : m.control = .perform command)
    (hf : m'.Follows (m.world.perform command) m.stack) : Clockwork c since m' := by
  have hnot : ¬ m.Ticking c := by
    intro ht
    obtain ⟨_, _, _, _, reply, -, hc⟩ := h.ticking ht
    cases hm.symm.trans hc
  cases hdrives : command.drives c with
  | false =>
      refine h.follows hnot hf (World.aside_perform _ hdrives) h.clockwork.ordered ?_
      refine h.clockwork.awaits.not_driver (by simp [hm]) ?_ ?_
      · rw [hm]
        rintro heq
        cases heq
        simp [Command.drives] at hdrives
      · rw [hm]
        rintro heq
        cases heq
        simp [Command.drives] at hdrives
  | true =>
      cases command with
      | advance d duration =>
          obtain rfl : d = c := by simpa [Command.drives] using hdrives
          exact h.begin hm hf
      | iterate d =>
          obtain rfl : d = c := by simpa [Command.drives] using hdrives
          exact h.iterate hm hf
      | runUntilIdle d =>
          obtain rfl : d = c := by simpa [Command.drives] using hdrives
          refine h.drain hnot hf h.clockwork.ordered fun hdriver => ?_
          have hordered := h.clockwork.ordered
          rcases h.clockwork.awaits.cases with
            ⟨target, n, stage, below, hs, ⟨-, hwithin⟩ | ⟨n, hc, -⟩⟩ |
            ⟨-, -, -, ⟨hc, -⟩ | hc⟩ | ⟨-, -, reply, hc⟩ | hd
          · rw [hs] at hordered
            obtain ⟨t, ht, -⟩ := hordered.1.target target n stage rfl
            refine ⟨by rw [ht]; exact Option.some_ne_none t, target, n, stage, below, hs, ?_⟩
            exact fun hstage => .inl (hwithin hstage)
          · cases hm.symm.trans hc
          · cases hm.symm.trans hc
          · cases hm.symm.trans hc
          · cases hm.symm.trans hc
          · exact absurd hdriver hd
      | runLoop l =>
          have hd := h.clockwork.awaits.not_driver (by simp [hm]) (by simp [hm]) (by simp [hm])
          refine h.loops hnot hf.stack ?_ h.clockwork.ordered hd (h.clockwork.movers _ hm rfl)
          simp [World.perform, World.runLoop, Progress.proceed, Frame.isMark, Frame.isDriver]
      | _ => cases hdrives

theorem resumes (h : Running c since m m') {frame : Frame β} {reply : Reply β}
    {rest : List (Layer β κ)} (hm : m.control = .deliver reply)
    (hs : m.stack = .operation frame :: rest)
    (hf : m'.Follows (frame.resume m.world reply) rest) : Clockwork c since m' := by
  have hordered := h.clockwork.ordered
  have hawaits := h.clockwork.awaits
  rw [hs] at hordered hawaits
  have hnot (hne : ∀ target count stage, frame ≠ .advance c target count stage) :
      ¬ m.Ticking c := by
    intro ht
    obtain ⟨target, count, stage, _, _, hs', -⟩ := h.ticking ht
    cases hs.symm.trans hs'
    exact hne _ _ _ rfl
  -- a loop stands where nothing minds
  have hloop (hne : (∃ l, frame = .loop l) ∨ ∃ l, frame = .looped l) :
      ¬ DriverOnTop c rest ∧ Clear c rest := by
    refine ⟨not_driver_of_fits hordered.1.fits ?_, hordered.1.moves frame rfl ?_⟩
    · rintro f hf
      cases hf
      rcases hne with ⟨l, rfl⟩ | ⟨l, rfl⟩ <;>
        exact ⟨fun _ hf => (by cases hf), fun _ hf => (by cases hf), fun _ hf => (by cases hf)⟩
    · rcases hne with ⟨l, rfl⟩ | ⟨l, rfl⟩ <;> rfl
  cases hby : frame.isBystander c with
  | true =>
      by_cases hserve : (∃ ready, frame = .iteration c ready true) ∨
          ∃ polled, frame = .collect c polled
      · rcases hserve with ⟨ready, rfl⟩ | ⟨polled, rfl⟩
        · exact h.iteration hs hf
        · exact h.collect hs hf
      · rw [not_or, not_exists, not_exists] at hserve
        have hne : ∀ target count stage, frame ≠ .advance c target count stage := by
          rintro target count stage rfl
          simp [Frame.isBystander, Frame.isDriver] at hby
        refine h.follows (hnot hne) hf (World.aside_resume _ hby reply) hordered.2 ?_
        refine not_driver_of_fits hordered.1.fits ?_
        rintro f hfeq
        cases hfeq
        refine ⟨?_, hserve.2, hserve.1⟩
        rintro count rfl
        simp [Frame.isBystander, Frame.isDriver] at hby
  | false =>
      cases frame with
      | advance d target count stage =>
          obtain rfl : d = c := by
            simpa [Frame.isBystander, Frame.isDriver, Frame.movesClock] using hby
          exact h.advance hm hs hf
      | drain d count =>
          obtain rfl : d = c := by
            simpa [Frame.isBystander, Frame.isDriver, Frame.movesClock] using hby
          rcases hawaits rfl with ⟨hc, -⟩ | hc
          · cases hm.symm.trans hc
          · cases Control.deliver.inj (hm.symm.trans hc)
            refine h.drain (hnot fun _ _ _ hf => (by cases hf)) hf hordered.2 fun hdriver => ?_
            rcases hordered.1.fits.cases with
              ⟨target, n, stage, below, _, hrest, -⟩ | ⟨_, _, _, ⟨_, hupper⟩ | ⟨_, hupper⟩⟩ | hd
            · refine ⟨hordered.1.exist count rfl, target, n, stage, below, hrest, ?_⟩
              exact fun _ => .inr (Nat.succ_pos count)
            · cases hupper
            · cases hupper
            · exact absurd hdriver hd
      | collect d polled =>
          obtain ⟨rfl, -⟩ : d = c ∧ polled = false := by
            simpa [Frame.isBystander, Frame.isDriver, Frame.movesClock] using hby
          exact h.collect hs hf
      | loop l =>
          obtain ⟨hd, hclear⟩ := hloop (.inl ⟨l, rfl⟩)
          exact h.loops (hnot fun _ _ _ hf => (by cases hf)) hf.stack
            (World.frames_checkLoop _ c l) hordered.2 hd hclear
      | looped l =>
          obtain ⟨hd, hclear⟩ := hloop (.inr ⟨l, rfl⟩)
          exact h.loops (hnot fun _ _ _ hf => (by cases hf)) hf.stack
            (World.frames_continueLoop _ c l reply) hordered.2 hd hclear
      | _ => cases hby

/-- A callback on top of the stack is replaced, or leaves. -/
theorem callback (h : Running c since m m') {k : κ} {inv : Invocation} {rest : List (Layer β κ)}
    (hs : m.stack = .callback k inv :: rest) (above : List (Layer β κ))
    (hs' : m'.stack = above ++ rest) (ha : ∀ layer ∈ above, layer.IsBystander c)
    (hc : ∀ command, m'.control = .perform command → command.movesClock c = true →
      Clear c m'.stack) : Clockwork c since m' := by
  have hnot : ¬ m.Ticking c := by
    intro ht
    obtain ⟨_, _, _, _, _, hs', -⟩ := h.ticking ht
    cases hs.symm.trans hs'
  have hordered := h.clockwork.ordered
  rw [hs] at hordered
  refine h.aside hnot above hs' ha hordered.2 (not_driver_of_fits hordered.1.fits ?_) hc
  rintro f hf
  cases hf

end Running

/-- **The clock keeps its order.** While no callback moves the clock of a context, what holds of it
holds after every step. -/
theorem Clockwork.step (client : Client σ β κ) {c : ContextId} {since : Nat} {m : Machine σ β κ}
    (h : Clockwork c since m) (hsound : (m.desk c).Sound)
    (hmanual : ∀ t, m.world.timetable? c = some t → t.config.clock = .manual)
    (hnest : (m.step client).nestsClock c = false) : Clockwork c since (m.step client) := by
  have hrun : Running c since m (m.step client) :=
    ⟨h, hsound, hmanual, (turn_step client m).desk c⟩
  have hcallback {k : κ} {inv : Invocation} :
      ∀ layer ∈ [Layer.callback (β := β) k inv], layer.IsBystander c := by
    intro layer hl f hf
    rw [List.mem_singleton.mp hl] at hf
    cases hf
  have hdeliver {reply : Reply β} (hc : (m.step client).control = .deliver reply) :
      ∀ command, (m.step client).control = .perform command → command.movesClock c = true →
        Clear c (m.step client).stack := by
    intro command hc'
    cases hc.symm.trans hc'
  cases Machine.moved_step client m with
  | performs command hm hf => exact hrun.performs hm hf
  | resumes frame reply stack hm hs hf => exact hrun.resumes hm hs hf
  | enters rest inv reply hm hw hs hc =>
      have hnot : ¬ m.Ticking c := by
        intro ht
        obtain ⟨_, _, _, _, _, -, hd⟩ := hrun.ticking ht
        rcases hm with ⟨callback, hm⟩ | ⟨d, task, outcome, hm⟩ <;> cases hm.symm.trans hd
      have hd : ¬ DriverOnTop c m.stack := by
        refine h.awaits.not_driver ?_ ?_ ?_ <;>
          rcases hm with ⟨callback, hm⟩ | ⟨d, task, outcome, hm⟩ <;> simp [hm]
      exact hrun.aside hnot [.callback rest inv] hs hcallback h.ordered hd (hdeliver hc)
  | asks command k k' inv stack hw hs hs' hc =>
      refine hrun.callback hs [.callback k' inv] hs' hcallback ?_
      intro command' hc' hmoves
      -- a callback that moves the clock is the outermost program
      have hasked : (m.step client).asked = some command := by
        unfold Machine.asked
        rw [hc, hs']
      cases hc.symm.trans hc'
      unfold Machine.nestsClock at hnest
      rw [hasked] at hnest
      dsimp only at hnest
      rw [hmoves, Bool.true_and, hs'] at hnest
      obtain rfl : stack = [] := by simpa using hnest
      rw [hs']
      intro f hf
      rw [List.mem_singleton] at hf
      cases hf
  | goesOn reply k k' inv stack hw hs hs' hc =>
      exact hrun.callback hs [.callback k' inv] hs' hcallback (hdeliver hc)
  | leaves reply k inv stack hw hs hs' hc hr =>
      exact hrun.callback hs [] hs' (fun _ hl => (by cases hl)) (hdeliver hc)
  | rests reply hw hs hm hc =>
      rcases hm with ⟨-, hnil⟩ | ⟨d, task, outcome, hm⟩
      · have hnot : ¬ m.Ticking c := by
          intro ht
          obtain ⟨_, _, _, _, _, hs', -⟩ := hrun.ticking ht
          cases hnil.symm.trans hs'
        have hd : ¬ DriverOnTop c m.stack := by
          rw [hnil]
          exact id
        exact hrun.aside hnot [] hs (fun _ hl => (by cases hl)) h.ordered hd (hdeliver hc)
      · have hnot : ¬ m.Ticking c := by
          intro ht
          obtain ⟨_, _, _, _, _, -, hd⟩ := hrun.ticking ht
          cases hm.symm.trans hd
        exact hrun.aside hnot [] hs (fun _ hl => (by cases hl)) h.ordered
          (h.awaits.not_driver (by simp [hm]) (by simp [hm]) (by simp [hm])) (hdeliver hc)

end ObjectSystem
