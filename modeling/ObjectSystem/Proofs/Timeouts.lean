import ObjectSystem.Proofs.Clockwork

/-!
# Timeouts are exact

While no callback moves the clock of a manual context, a timeout starts exactly at its deadline: an
interval after it was attached or, later, after it last started. An advance that returns has moved
the clock by exactly its duration and left no timeout due.
-/

namespace ObjectSystem

variable {σ β κ : Type}

open Machine (marks Reachable)

namespace Machine

/-! ## What happens in a run -/

/-- A source starts with a step. -/
def Starts (client : Client σ β κ) (m : Machine σ β κ) (c : ContextId) (id : SourceId) (n : Nat) :
    Prop :=
  ((m.after client n).source? c id).map (·.running) = some false ∧
    ((m.after client (n + 1)).source? c id).map (·.running) = some true

/-- A source is attached with a step. -/
def Attaches (client : Client σ β κ) (m : Machine σ β κ) (c : ContextId) (id : SourceId)
    (n : Nat) : Prop :=
  (m.after client n).source? c id = none ∧ (m.after client (n + 1)).source? c id ≠ none

/-- An operation that the program asks for at one time returns at another. -/
structure Returns (client : Client σ β κ) (m : Machine σ β κ) (command : Command β) (j k : Nat) :
    Prop where
  lt : j < k
  asked : (m.after client j).asked = some command
  outside : (m.after client j).stack.length = 1
  busy : ∀ i, j < i → i < k → 1 < (m.after client i).stack.length
  returned : (m.after client k).stack.length = 1

/-- The interval of a source has been running since a step with which it was attached or started,
and not started again before some later time. -/
structure CountsFrom (client : Client σ β κ) (m : Machine σ β κ) (c : ContextId) (id : SourceId)
    (j n : Nat) : Prop where
  lt : j < n
  since : Attaches client m c id j ∨ Starts client m c id j
  last : ∀ i, j < i → i < n → ¬ Starts client m c id i

end Machine

/-! ## The invariant along a run -/

section Run

variable (client : Client σ β κ) (m : Machine σ β κ) (c : ContextId)

/-- A manual clock has been manual all along. -/
theorem manual_before {n : Nat}
    (hmanual : ∀ x, (m.after client n).world.context? c = some x → x.config.clock = .manual)
    {k : Nat} (hk : k ≤ n) :
    ∀ t, (m.after client k).world.timetable? c = some t → t.config.clock = .manual := by
  induction n with
  | zero =>
      obtain rfl := Nat.le_zero.mp hk
      intro t ht
      obtain ⟨x, hx, rfl⟩ := Option.map_eq_some_iff.mp ht
      exact hmanual x hx
  | succ n ih =>
      rcases Nat.lt_or_eq_of_le hk with hlt | rfl
      · refine ih (fun x hx => ?_) (Nat.le_of_lt_succ hlt)
        obtain ⟨t', ht', hconfig⟩ :=
          ((turn_step client (m.after client n)).desk c).config (World.timetable?_eq hx)
        obtain ⟨y, hy, rfl⟩ := Option.map_eq_some_iff.mp ht'
        have hclock : y.config.clock = .manual := hmanual y hy
        rw [show y.config = x.config from hconfig] at hclock
        exact hclock
      · intro t ht
        obtain ⟨x, hx, rfl⟩ := Option.map_eq_some_iff.mp ht
        exact hmanual x hx

variable {client m c}

/-- What holds at the beginning holds as long as the clock is moved from outside. -/
theorem Clockwork.after {since n : Nat} (h : Clockwork c since m) (hreach : Reachable client m)
    (houtside : ∀ k, k < n → (m.after client (k + 1)).nestsClock c = false)
    (hmanual : ∀ x, (m.after client n).world.context? c = some x → x.config.clock = .manual) :
    Clockwork c since (m.after client n) := by
  suffices ∀ k, k ≤ n → Clockwork c since (m.after client k) from this n (Nat.le_refl n)
  intro k hk
  induction k with
  | zero => exact h
  | succ k ih =>
      exact (ih (Nat.le_of_succ_le hk)).step client ((hreach.after k).desk c)
        (manual_before client m c hmanual (Nat.le_of_succ_le hk)) (houtside k hk)

end Run

theorem Clockwork.initial (state : σ) (callback : β) (c : ContextId) :
    Clockwork c 0 (.initial state callback : Machine σ β κ) :=
  ⟨trivial, fun _ hc => (by cases hc), trivial, fun _ ht => (by cases ht)⟩

/-! ## Deadlines -/

/-- A timeout counts its interval from its attachment or its last start. -/
structure Counted (client : Client σ β κ) (m : Machine σ β κ) (c : ContextId) (n : Nat)
    (s : Source β) (j : Nat) : Prop where
  counts : Machine.CountsFrom client m c s.id j n
  idle : s.running = false →
    s.readyAt = (m.after client j).time c + s.kind.delay
  busy : s.running = true → (m.after client n).time c = (m.after client j).time c

section Counted

variable {client : Client σ β κ} {m : Machine σ β κ} {c : ContextId}

/-- While the clock ticks, no source waits or runs. -/
theorem Clockwork.desk_of_ticking {since : Nat} (h : Clockwork c since m)
    (hmanual : ∀ t, m.world.timetable? c = some t → t.config.clock = .manual)
    (hticking : m.Ticking c) : (m.desk c).waiting = [] ∧ (m.desk c).running = [] := by
  obtain ⟨target, count, stage, stack, reply, hs, -⟩ := hticking.of_manual hmanual
  have hordered := h.ordered
  rw [hs] at hordered
  exact hordered.desk hs (by simp [Frame.movesClock])

/-- While sources run, the clock stands still. -/
theorem Clockwork.not_ticking {since : Nat} (h : Clockwork c since m) (hsound : (m.desk c).Sound)
    (hmanual : ∀ t, m.world.timetable? c = some t → t.config.clock = .manual)
    {t : Timetable β} (ht : m.world.timetable? c = some t) {s : Source β} (hs : s ∈ t.sources)
    (hrun : s.running = true) : ¬ m.Ticking c := by
  intro hticking
  have hin := ((hsound.present t ht).runs s hs).mp hrun
  rw [(h.desk_of_ticking hmanual hticking).2] at hin
  cases hin

theorem Machine.source?_of_mem {t : Timetable β} (hsound : (m.desk c).Sound)
    (ht : m.world.timetable? c = some t) {s : Source β} (hs : s ∈ t.sources) :
    m.source? c s.id = some s := by
  rw [Machine.source?_eq ht]
  exact hsound.source?_of_mem ht hs

/-- A step goes on counting. -/
theorem Counted.step {since n : Nat} (hreach : Reachable client m)
    (hclock : Clockwork c since (m.after client n))
    (hmanual : ∀ t, (m.after client n).world.timetable? c = some t → t.config.clock = .manual)
    (ih : ∀ t, (m.after client n).world.timetable? c = some t → ∀ s ∈ t.sources,
      s.kind.isIdle = false → since ≤ s.id.number → ∃ j, Counted client m c n s j)
    {t' : Timetable β} (ht' : (m.after client (n + 1)).world.timetable? c = some t')
    {s' : Source β} (hs' : s' ∈ t'.sources) (hkind : s'.kind.isIdle = false)
    (hsince : since ≤ s'.id.number) : ∃ j, Counted client m c (n + 1) s' j := by
  have hsound := (hreach.after n).desk c
  have hsound' := (hreach.after (n + 1)).desk c
  have hmove := (turn_step client (m.after client n)).desk c
  have hfound' := Machine.source?_of_mem hsound' ht' hs'
  cases ht : (m.after client n).world.timetable? c with
  | none =>
      rw [hmove.fresh ht ht'] at hs'
      cases hs'
  | some t =>
      have hlookup (id : SourceId) : (m.after client n).source? c id = t.source? id :=
        Machine.source?_eq ht id
      have hmem {s : Source β} (hs : t.source? s'.id = some s) : s ∈ t.sources ∧ s.id = s'.id :=
        Timetable.mem_of_source? hs
      have htime (hnot : ¬ (m.after client n).Ticking c) :
          (m.after client (n + 1)).time c = (m.after client n).time c := by
        obtain ⟨u, hu, hnow, -⟩ := hmove.sameClock hnot t ht
        have hu' : (m.after client (n + 1)).world.timetable? c = some u := hu
        rw [Machine.time_eq ht, Machine.time_eq hu', hnow]
      -- a step with which the source does not start leaves the count alone
      have extend {s : Source β} {j : Nat} (hs : t.source? s'.id = some s)
          (hc : Counted client m c n s j) (hnot : ¬ Machine.Starts client m c s'.id n) :
          Machine.CountsFrom client m c s'.id j (n + 1) := by
        have hid := (hmem hs).2
        have hcounts := hc.counts
        rw [hid] at hcounts
        refine ⟨Nat.lt_succ_of_lt hcounts.lt, hcounts.since, fun i hji hin => ?_⟩
        rcases Nat.lt_or_eq_of_le (Nat.le_of_lt_succ hin) with hlt | rfl
        · exact hcounts.last i hji hlt
        · exact hnot
      cases hmove.fate hsound ht ht' hs' with
      | fresh hnone hid hrun hready =>
          refine ⟨n, ⟨Nat.lt_succ_self n, .inl ⟨?_, ?_⟩, fun i hi hin => by omega⟩, ?_, ?_⟩
          · rw [hlookup, hnone]
          · rw [hfound']
            exact Option.some_ne_none s'
          · intro _
            rw [hready, Machine.time_eq ht]
          · intro htrue
            rw [hrun] at htrue
            cases htrue
      | kept s hs hk hwork hready hrun =>
          rw [hk] at hkind
          obtain ⟨hsmem, hid⟩ := hmem hs
          obtain ⟨j, hc⟩ := ih t ht s hsmem hkind (by rw [hid]; exact hsince)
          refine ⟨j, extend hs hc ?_, ?_, ?_⟩
          · rintro ⟨hold, hnew⟩
            rw [hlookup, hs] at hold
            rw [hfound', Option.map_some, hrun] at hnew
            cases hold.symm.trans hnew
          · intro hfalse
            rw [hready, hk]
            exact hc.idle (hrun ▸ hfalse)
          · intro htrue
            rw [hrun] at htrue
            rw [htime (hclock.not_ticking hsound hmanual ht hsmem htrue)]
            exact hc.busy htrue
      | started s hs hk hwork hready hold hrun hwait =>
          obtain ⟨hsmem, hid⟩ := hmem hs
          refine ⟨n, ⟨Nat.lt_succ_self n, .inr ⟨?_, ?_⟩, fun i hi hin => by omega⟩, ?_, fun _ => ?_⟩
          · rw [hlookup, hs, Option.map_some, hold]
          · rw [hfound', Option.map_some, hrun]
          · intro hfalse
            rw [hrun] at hfalse
            cases hfalse
          · refine htime fun hticking => ?_
            rw [(hclock.desk_of_ticking hmanual hticking).1] at hwait
            cases hwait
      | rearmed s hs hk hwork hstay hold hrun hready =>
          obtain ⟨hsmem, hid⟩ := hmem hs
          obtain ⟨j, hc⟩ := ih t ht s hsmem (by rw [← hk]; exact hkind) (by rw [hid]; exact hsince)
          refine ⟨j, extend hs hc ?_, ?_, ?_⟩
          · rintro ⟨hidle, -⟩
            rw [hlookup, hs, Option.map_some, hold] at hidle
            cases hidle
          · intro _
            rw [hready hkind, ← Machine.time_eq ht, hc.busy hold]
          · intro htrue
            rw [hrun] at htrue
            cases htrue

end Counted

/-- In every state of the run, every attached timeout counts its interval. -/
theorem counted_after {client : Client σ β κ} {m : Machine σ β κ} {c : ContextId}
    (h : Clockwork c 0 m) (hreach : Reachable client m)
    (hnone : ∀ t, m.world.timetable? c = some t → t.sources = []) {n : Nat}
    (houtside : ∀ k, k < n → (m.after client (k + 1)).nestsClock c = false)
    (hmanual : ∀ x, (m.after client n).world.context? c = some x → x.config.clock = .manual) :
    ∀ t, (m.after client n).world.timetable? c = some t → ∀ s ∈ t.sources,
      s.kind.isIdle = false → ∃ j, Counted client m c n s j := by
  suffices ∀ k, k ≤ n → ∀ t, (m.after client k).world.timetable? c = some t → ∀ s ∈ t.sources,
      s.kind.isIdle = false → 0 ≤ s.id.number → ∃ j, Counted client m c k s j by
    intro t ht s hs hkind
    exact this n (Nat.le_refl n) t ht s hs hkind (Nat.zero_le _)
  intro k hk
  induction k with
  | zero =>
      intro t ht s hs
      rw [hnone t ht] at hs
      cases hs
  | succ k ih =>
      intro t' ht' s' hs' hkind hsince
      have hbefore := manual_before client m c hmanual (Nat.le_of_succ_le hk)
      have hclock : Clockwork c 0 (m.after client k) := by
        refine h.after hreach (fun i hi => houtside i (by omega)) fun x hx => ?_
        exact hbefore x.timetable (World.timetable?_eq hx)
      exact Counted.step hreach hclock hbefore (ih (Nat.le_of_succ_le hk)) ht' hs' hkind hsince

/-! ## Advances -/

/-- An advance of a context is in progress on some layers, and brings the clock to a target. -/
def Advancing (c : ContextId) (target : Nat) (base : List (Layer β κ)) (m : Machine σ β κ) : Prop :=
  ∃ above count stage, m.stack = above ++ .operation (.advance c target count stage) :: base

/-- The clock has reached its target, and no timeout is due. -/
def Arrived (c : ContextId) (target : Nat) (m : Machine σ β κ) : Prop :=
  ∃ t, m.world.timetable? c = some t ∧ t.now = target ∧
    ∀ s ∈ t.sources, s.kind.isIdle = false → t.now < s.readyAt

theorem advancing_push {c : ContextId} {target : Nat} {base : List (Layer β κ)}
    {m m' : Machine σ β κ} (h : Advancing c target base m) (new : List (Layer β κ)) (hs : m'.stack = new ++ m.stack) :
    Advancing c target base m' := by
  obtain ⟨above, count, stage, hstack⟩ := h
  exact ⟨new ++ above, count, stage, by rw [hs, hstack, List.append_assoc]⟩

/-- An advance in progress goes on, or has arrived and returns. -/
theorem Advancing.step (client : Client σ β κ) {c : ContextId} {target since : Nat}
    {base : List (Layer β κ)} {m : Machine σ β κ} (h : Advancing c target base m)
    (hclock : Clockwork c since m) (hsound : (m.desk c).Sound)
    (hmanual : ∀ t, m.world.timetable? c = some t → t.config.clock = .manual) :
    Advancing c target base (m.step client) ∨
      (m.step client).stack = base ∧ Arrived c target (m.step client) := by
  have hrun : Running c since m (m.step client) :=
    ⟨hclock, hsound, hmanual, (turn_step client m).desk c⟩
  obtain ⟨above, count, stage, hs⟩ := h
  cases above with
  | cons layer above =>
      obtain ⟨new, hnew⟩ := Machine.stack_step_cons client hs
      refine .inl ⟨new ++ above, count, stage, ?_⟩
      rw [← hnew, List.append_assoc]
      rfl
  | nil =>
      have hs : m.stack = .operation (.advance c target count stage) :: base := hs
      have hthis : Advancing c target base m := ⟨[], count, stage, hs⟩
      cases Machine.moved_step client m with
      | performs command hm hf => exact .inl (advancing_push hthis _ hf.stack)
      | enters rest inv reply hm hw hs' hc =>
          exact .inl (advancing_push hthis [.callback rest inv] hs')
      | asks command k k' inv stack hw hs' hs'' hc => cases hs.symm.trans hs'
      | goesOn reply k k' inv stack hw hs' hs'' hc => cases hs.symm.trans hs'
      | leaves reply k inv stack hw hs' hs'' hc hr => cases hs.symm.trans hs'
      | rests reply hw hs' hm hc =>
          exact .inl (advancing_push hthis [] hs')
      | resumes frame reply stack hm hs' hf =>
          obtain ⟨hframe, rfl⟩ := List.cons.inj (hs.symm.trans hs')
          cases hframe
          have hordered := hclock.ordered
          have hawaits := hclock.awaits
          rw [hs] at hordered hawaits
          obtain ⟨t, ht, hle, hafter⟩ := hordered.1.target target count stage rfl
          have hframes {now count' : Nat} {stage' : AdvanceStage}
              (hf : (m.step client).Follows (.perform (m.world.setTime c now) (.runUntilIdle c)
                [.advance c target count' stage']) base) :
              Advancing c target base (m.step client) :=
            ⟨[], count', stage', hf.stack⟩
          have hstep (ran : Nat)
              (hf : (m.step client).Follows (m.world.stepClock c target ran) base) :
              Advancing c target base (m.step client) := by
            obtain ⟨x, hx, rfl⟩ := Option.map_eq_some_iff.mp ht
            unfold World.stepClock at hf
            rw [show m.world.context? c = some x from hx] at hf
            dsimp only at hf
            split at hf
            · exact hframes hf
            · split at hf
              · exact hframes hf
              · exact hframes hf
          unfold Frame.resume World.continueAdvance at hf
          extract_lets ran at hf
          cases stage with
          | before => exact .inl (hstep _ hf)
          | within =>
              dsimp only at hf
              split at hf
              · exact .inl (hframes hf)
              · exact .inl (hstep _ hf)
          | after =>
              refine .inr ⟨hf.stack, t, (hf.world.timetable c).trans ht, hafter rfl, ?_⟩
              rcases hawaits rfl with ⟨hc, -⟩ | ⟨n, hc, hnone, -⟩
              · cases hm.symm.trans hc
              · exact fun s hmem hkind => (hrun.at_rest hs hnone ht s hmem hkind).2.2

/-- An advance that the program asks for is in progress until it returns. -/
theorem advancing_after {client : Client σ β κ} {m : Machine σ β κ} {c : ContextId}
    {since j k duration : Nat} (h : Clockwork c since m) (hreach : Reachable client m)
    (houtside : ∀ i, i < k → (m.after client (i + 1)).nestsClock c = false)
    (hmanual : ∀ x, (m.after client k).world.context? c = some x → x.config.clock = .manual)
    (hreturns : Machine.Returns client m (.advance c duration) j k)
    {t : Timetable β} (ht : (m.after client j).world.timetable? c = some t) :
    Arrived c (t.now + duration) (m.after client k) := by
  obtain ⟨hlt, hasked, houter, hbusy, hreturned⟩ := hreturns
  have hcontrol : (m.after client j).control = .perform (.advance c duration) := by
    unfold Machine.asked at hasked
    split at hasked
    · cases hasked
      assumption
    · cases hasked
  have hat (i : Nat) (hi : i ≤ k) :
      ∀ t, (m.after client i).world.timetable? c = some t → t.config.clock = .manual :=
    manual_before client m c hmanual hi
  have hwork (i : Nat) (hi : i < k) : Clockwork c since (m.after client i) := by
    refine h.after hreach (fun n hn => houtside n (by omega)) fun x hx => ?_
    exact hat i (Nat.le_of_lt hi) x.timetable (World.timetable?_eq hx)
  -- from the step after the command until the return, the advance is on the stack
  suffices ∀ i, j < i → i ≤ k →
      Advancing c (t.now + duration) (m.after client j).stack (m.after client i) ∨
        i = k ∧ Arrived c (t.now + duration) (m.after client k) by
    rcases this k hlt (Nat.le_refl k) with ⟨above, count, stage, hs⟩ | ⟨-, harrived⟩
    · rw [hs, List.length_append, List.length_cons, houter] at hreturned
      omega
    · exact harrived
  intro i hji hik
  induction i with
  | zero => cases hji
  | succ i ih =>
      rcases Nat.lt_or_eq_of_le (Nat.le_of_lt_succ hji) with hlt' | rfl
      · rcases ih hlt' (Nat.le_of_succ_le hik) with hadv | ⟨rfl, -⟩
        · rcases hadv.step client (hwork i hik) ((hreach.after i).desk c)
            (hat i (Nat.le_of_succ_le hik)) with hadv' | ⟨hbase, harrived⟩
          · exact .inl hadv'
          · rcases Nat.lt_or_eq_of_le hik with hlt'' | heq
            · have := hbusy (i + 1) hji hlt''
              rw [show (m.after client (i + 1)).stack = _ from hbase, houter] at this
              omega
            · exact .inr ⟨heq, heq ▸ harrived⟩
        · omega
      · left
        obtain ⟨x, hx, rfl⟩ := Option.map_eq_some_iff.mp ht
        have hf : (m.after client (j + 1)).Follows
            ((m.after client j).world.advance c duration) (m.after client j).stack :=
          Machine.follows_perform client hcontrol
        unfold World.advance at hf
        rw [show (m.after client j).world.context? c = some x from hx] at hf
        have hclock : x.config.clock = .manual := hat j (Nat.le_of_lt hlt) _ ht
        dsimp only at hf
        rw [hclock] at hf
        exact ⟨[], 0, .before, hf.stack⟩

/-! ## Starts -/

section Starts

variable {client : Client σ β κ} {m : Machine σ β κ} {c : ContextId} {id : SourceId} {n : Nat}

/-- A callback that runs as the body of a source belongs to the source whose work starts. -/
theorem source_of_startWork {w : World β} {d : ContextId} {id' : SourceId} {work : SourceWork β}
    {callback : β} {inv : Invocation}
    (hc : (w.startWork d id' work []).control = .invoke callback inv)
    (hrole : inv.role = .source c id) : d = c ∧ id' = id := by
  refine World.startWork_cases (P := fun _ p => p.control = .invoke callback inv →
    d = c ∧ id' = id) w d id' work [] ?_ ?_ ?_ ?_ ?_ ?_ ?_ ?_ hc
  · exact fun f hc => by cases hc; cases hrole; exact ⟨rfl, rfl⟩
  · exact fun f hc => by cases hc; cases hrole; exact ⟨rfl, rfl⟩
  · exact fun _ _ _ _ => nofun
  · exact fun _ _ _ _ hc => by cases hc; cases hrole
  · exact fun _ _ _ _ hc => by cases hc; cases hrole
  · exact fun _ _ _ _ _ => nofun
  · exact fun _ _ _ _ _ _ _ _ _ => nofun
  · exact fun _ _ _ _ _ _ _ _ _ _ hc => by cases hc; cases hrole

/-- A callback is invoked in the role of a source only as that source starts. -/
theorem starts_of_invoke (hreach : Reachable client m) {callback : β} {inv : Invocation}
    (hc : (m.after client (n + 1)).control = .invoke callback inv)
    (hrole : inv.role = .source c id) : Machine.Starts client m c id n := by
  have hturn := turn_step client (m.after client n)
  have hplain : (m.after client (n + 1)).control.isPlain = false := by
    rw [hc, Control.isPlain, hrole]
    rfl
  cases hturn with
  | begins d id' ready worked rest x y work hx hb hw hs hs' hc' =>
      have hinvoke := hc'.symm.trans hc
      obtain ⟨rfl, rfl⟩ := source_of_startWork hinvoke hrole
      obtain ⟨s, hsource, hrun, -, hy⟩ := MainContext.of_beginRun hb
      have ht := World.timetable?_eq hx
      have ht' : (m.after client (n + 1)).world.timetable? d = some (x.timetable.start id') := by
        have ht' := ((hw.timetable d).trans (Turn.timetable?_startWork _ _ _ _ d)).trans
          (World.timetable?_setContext _ hx)
        rwa [if_pos rfl, hy] at ht'
      obtain ⟨hmem, hid⟩ := Timetable.mem_of_source? hsource
      have hmem' : { s with running := true } ∈ (x.timetable.start id').sources :=
        Timetable.mem_modify.mpr ⟨s, hmem, if_pos hid⟩
      constructor
      · rw [(Machine.source?_eq ht id').trans hsource, Option.map_some, hrun]
      · rw [← hid, Machine.source?_of_mem ((hreach.after (n + 1)).desk d) ht' hmem']
        rfl
  | calls i name args x f hm hx hd hf hw hs hc' =>
      cases hc'.symm.trans hc
      cases hrole
  | callsAtOnce i name args x f debounce hm hx hd hf hr hw hs hc' =>
      cases hc'.symm.trans hc
      cases hrole
  | _ =>
      rename_i hplain'
      cases hplain'.symm.trans hplain

/-- A source that starts has waited for its turn. -/
theorem Machine.Starts.waited (hreach : Reachable client m) (h : Machine.Starts client m c id n) :
    id ∈ ((m.after client n).desk c).waiting := by
  obtain ⟨hbefore, hafter⟩ := h
  obtain ⟨s, hs, hold⟩ := Option.map_eq_some_iff.mp hbefore
  obtain ⟨s', hs', hrun⟩ := Option.map_eq_some_iff.mp hafter
  obtain ⟨t, ht, hfound⟩ := Machine.timetable_of_source? hs
  obtain ⟨t', ht', hfound'⟩ := Machine.timetable_of_source? hs'
  obtain ⟨hmem', hid'⟩ := Timetable.mem_of_source? hfound'
  cases ((turn_step client (m.after client n)).desk c).fate ((hreach.after n).desk c) ht ht'
    hmem' with
  | fresh hnone _ _ _ =>
      rw [hid', show t.source? id = some s from hfound] at hnone
      cases hnone
  | kept r hr hkind hwork hready hsame =>
      rw [hid', show t.source? id = some s from hfound] at hr
      cases hr
      rw [hsame, hold] at hrun
      cases hrun
  | started r hr hkind hwork hready hfalse htrue hwait => exact hid' ▸ hwait
  | rearmed r hr hkind hwork hstay htrue hfalse hready =>
      rw [hfalse] at hrun
      cases hrun

end Starts

/-- While no callback of a run moves the clock of a manual context, every start of a timeout is at
its deadline, an interval after its attachment or its last start, and every advance that returns has
brought the clock to its target, with no timeout left that is due. -/
theorem timeouts_exact (client : Client σ β κ) (state : σ) (program : β) (c : ContextId) (n : Nat)
    (houtside : ∀ k, k ≤ n →
      ((Machine.initial state program).after client k).nestsClock c = false)
    (hmanual : ∀ x, ((Machine.initial state program).after client n).world.context? c = some x →
      x.config.clock = .manual) :
    let m : Machine σ β κ := .initial state program
    (∀ k id, k < n → m.Starts client c id k →
      ∀ s interval, (m.after client k).source? c id = some s → s.kind = .timeout interval →
        (m.after client k).time c = s.readyAt ∧
          ∃ j, m.CountsFrom client c id j k ∧ s.readyAt = (m.after client j).time c + interval) ∧
    (∀ k id callback inv, k < n → (m.after client (k + 1)).control = .invoke callback inv →
      inv.role = .source c id → m.Starts client c id k) ∧
    (∀ j k duration, k ≤ n → m.Returns client (.advance c duration) j k →
      (m.after client j).world.context? c ≠ none →
        (m.after client k).time c = (m.after client j).time c + duration ∧
          ∀ id s interval, (m.after client k).source? c id = some s →
            s.kind = .timeout interval → (m.after client k).time c < s.readyAt) := by
  intro m
  have hreach : Reachable client m := .initial state program
  have hwork : Clockwork c 0 m := .initial state program c
  have hbefore {k : Nat} (hk : k ≤ n) (x : MainContext β)
      (hx : (m.after client k).world.context? c = some x) : x.config.clock = .manual :=
    manual_before client m c hmanual hk x.timetable (World.timetable?_eq hx)
  have hlater {k : Nat} (hk : k ≤ n) (i : Nat) (hi : i < k) :
      (m.after client (i + 1)).nestsClock c = false :=
    houtside (i + 1) (by omega)
  refine ⟨fun k id hk hstart s interval hs hkind => ?_,
    fun k id callback inv _ hc hrole => starts_of_invoke hreach hc hrole,
    fun j k duration hk hreturns hexists => ?_⟩
  · obtain ⟨t, ht, hfound⟩ := Machine.timetable_of_source? hs
    obtain ⟨hmem, hid⟩ := Timetable.mem_of_source? hfound
    have htimeout : s.kind.isIdle = false := by
      rw [hkind]
      rfl
    have hle : k ≤ n := Nat.le_of_lt hk
    have hclock := hwork.after hreach (hlater hle) (hbefore hle)
    obtain ⟨-, hdue⟩ := hclock.timely t ht s hmem (Nat.zero_le _) htimeout
    have hready : s.readyAt = t.now := hdue (hid ▸ hstart.waited hreach)
    obtain ⟨j, hcount⟩ := counted_after hwork hreach (fun _ ht => (by cases ht)) (hlater hle)
      (hbefore hle) t ht s hmem htimeout
    have hrun : s.running = false := by
      have hidle := hstart.1
      rw [hs, Option.map_some] at hidle
      exact Option.some.inj hidle
    refine ⟨(Machine.time_eq ht).trans hready.symm, j, hid ▸ hcount.counts, ?_⟩
    rw [hcount.idle hrun, hkind]
    rfl
  · obtain ⟨x, hx⟩ := Option.ne_none_iff_exists'.mp hexists
    have htj := World.timetable?_eq hx
    obtain ⟨t, ht, hnow, hnone⟩ :=
      advancing_after hwork hreach (hlater hk) (hbefore hk) hreturns htj
    rw [Machine.time_eq ht, Machine.time_eq htj]
    refine ⟨hnow, fun id s interval hs hkind => ?_⟩
    obtain ⟨u, hu, hfound⟩ := Machine.timetable_of_source? hs
    obtain rfl := Option.some.inj (ht.symm.trans hu)
    refine hnone s (Timetable.mem_of_source? hfound).1 ?_
    rw [hkind]
    rfl

/-- A program that attaches a repeating timeout to a new manual context and advances it. -/
def ticker : Client Unit Nat (Routine Nat) :=
  .ofRoutines
    (fun
      | 0 => { acts := [.command (.newContext { clock := .manual }),
          .command (.addTimeout ⟨0⟩ .standard 5 false 1), .command (.advance ⟨0⟩ 10)] }
      | _ => { outcome := .flow true })
    []

set_option maxRecDepth 100000 in
/-- The timeout of `ticker` starts for the second time, and then the advance returns. -/
theorem timeouts_exact_ticker :
    let m : Machine Unit Nat (Routine Nat) := .initial () 0
    (∀ k, k ≤ 31 → (m.after ticker k).nestsClock ⟨0⟩ = false) ∧
      m.Starts ticker ⟨0⟩ ⟨0⟩ 22 ∧
      (∃ j, m.CountsFrom ticker ⟨0⟩ ⟨0⟩ j 22 ∧
        (m.after ticker 22).time ⟨0⟩ = (m.after ticker j).time ⟨0⟩ + 5) ∧
      m.Returns ticker (.advance ⟨0⟩ 10) 6 31 ∧
      (m.after ticker 31).time ⟨0⟩ = (m.after ticker 6).time ⟨0⟩ + 10 := by
  intro m
  have houtside : ∀ k, k ≤ 31 → (m.after ticker k).nestsClock ⟨0⟩ = false := by decide +kernel
  have hmanual : ((m.after ticker 31).world.context? ⟨0⟩).map (·.config.clock) = some .manual := by
    decide +kernel
  have hstart : m.Starts ticker ⟨0⟩ ⟨0⟩ 22 := by
    unfold Machine.Starts
    decide +kernel
  have hkind : ((m.after ticker 22).source? ⟨0⟩ ⟨0⟩).map (·.kind) = some (.timeout 5) := by
    decide +kernel
  have hbusy : ∀ i, i < 31 → 6 < i → 1 < (m.after ticker i).stack.length := by decide +kernel
  have hasked : (Machine.after ticker (.initial () 0) 6).asked = some (.advance ⟨0⟩ 10) := by rfl
  have hreturns : m.Returns ticker (.advance ⟨0⟩ 10) 6 31 :=
    ⟨by decide, hasked, by decide +kernel, fun i hlt hi => hbusy i hi hlt, by decide +kernel⟩
  obtain ⟨hexact, -, hadvance⟩ := timeouts_exact ticker () 0 ⟨0⟩ 31 houtside fun x hx => by
    rw [hx] at hmanual
    exact Option.some.inj hmanual
  obtain ⟨s, hs, hinterval⟩ := Option.map_eq_some_iff.mp hkind
  obtain ⟨htime, j, hcount, hready⟩ := hexact 22 ⟨0⟩ (by decide) hstart s 5 hs hinterval
  refine ⟨houtside, hstart, ⟨j, hcount, htime.trans hready⟩, hreturns, ?_⟩
  exact (hadvance 6 31 10 (Nat.le_refl 31) hreturns (by decide +kernel)).1

end ObjectSystem
