import Mathlib
import ObjectSystem.Proofs.Clockwork

/-!
# What pending predicts

A context says that it is pending exactly if an iteration would do something. The iteration asks by
other rules: it polls tasks if some are ready, and it collects idle sources and due timeouts that do
not run. That both agree is a matter of sound desks, where what is due does not run
(`Desk.Sound.pending_eq`).

`Machine.asking` is a state in which a command is asked for instead of whatever happens next, and
`Machine.Answers` says what the command is answered. An iteration that is in progress will answer
what `pending` said when it was asked for (`Iterating`), however its callbacks and tasks nest others;
a run until idle goes on as long as something is pending (`Draining`).
-/

namespace ObjectSystem

variable {σ β κ : Type}

open Machine (Reachable marks)

/-! ## Pending contexts -/

/-- What is pending, an iteration would poll or collect. -/
theorem Desk.Sound.pending_eq {x : MainContext β} {waiting : List SourceId}
    {running : List (SourceId × Bool)} (h : x.timetable.Sound waiting running) :
    x.pending = (x.tasksReady || !x.timetable.ready.isEmpty) := by
  have hready : x.timetable.ready.isEmpty = false ↔
      ∃ s ∈ x.sources, x.timetable.Collects s := by
    rw [List.isEmpty_eq_false_iff_exists_mem]
    constructor
    · rintro ⟨id, hid⟩
      obtain ⟨s, hs, hcollects, -⟩ := Timetable.collects_of_mem_ready hid
      exact ⟨s, hs, hcollects⟩
    · rintro ⟨s, hs, hcollects⟩
      exact ⟨s.id, Timetable.mem_ready h.nodup hs hcollects⟩
  rw [Bool.eq_iff_iff, Bool.or_eq_true, Bool.not_eq_true', hready, MainContext.pending_iff h.nodup]
  refine or_congr_right ⟨?_, ?_⟩
  · rintro (⟨s, hs, hidle⟩ | ⟨s, hs, hdue⟩)
    · exact ⟨s, hs, .inl hidle⟩
    · exact ⟨s, hs, .inr ⟨hdue, (h.of_armed hs hdue.1).2⟩⟩
  · rintro ⟨s, hs, hidle | ⟨hdue, -⟩⟩
    · exact .inl ⟨s, hs, hidle⟩
    · exact .inr ⟨s, hs, hdue⟩

/-- Whether a context is pending. -/
def World.Pending (w : World β) (c : ContextId) : Prop :=
  ∃ x, w.context? c = some x ∧ x.pending = true

/-- A calm change leaves a pending context pending. -/
theorem World.Calm.pending {w v : World β} {c : ContextId} (h : World.Calm w v)
    (hw : w.Pending c) : v.Pending c := by
  obtain ⟨x, hx, hpending⟩ := hw
  obtain ⟨y, hy, hview⟩ := Option.map_eq_some_iff.mp
    ((h.timetable c).trans (World.timetable?_eq hx))
  refine ⟨y, hy, ?_⟩
  obtain ⟨-, hnow, hsources, -, hqueue⟩ := Timetable.mk.inj hview
  have hstale : y.isStale = x.isStale := by
    funext e
    unfold MainContext.isStale MainContext.source?
    rw [hsources]
  unfold MainContext.pending at hpending ⊢
  rw [Bool.or_eq_true, Bool.or_eq_true, or_assoc] at hpending ⊢
  rw [hnow, hsources, hqueue, hstale]
  refine hpending.imp (fun htasks => ?_) id
  obtain ⟨z, hz, hready⟩ := h.ready c ⟨x, hx, htasks⟩
  obtain rfl := Option.some.inj (hy.symm.trans hz)
  exact hready

/-! ## Asking in a state -/

namespace Machine

/-- The state in which a command is asked for instead of what happens next. -/
def asking (m : Machine σ β κ) (command : Command β) : Machine σ β κ :=
  { m with control := .perform command }

/-- A command that is asked for gets its reply after so many steps: until then there is more on the
stack, and then the stack is as it was. -/
structure Answers (client : Client σ β κ) (m : Machine σ β κ) (command : Command β)
    (reply : Reply β) (k : Nat) : Prop where
  busy : ∀ i, 0 < i → i < k →
    m.stack.length < ((m.asking command).after client i).stack.length
  stack : ((m.asking command).after client k).stack = m.stack
  control : ((m.asking command).after client k).control = .deliver reply

variable {client : Client σ β κ} {m : Machine σ β κ} {c : ContextId}

/-- To ask for what is asked for anyway makes no difference. -/
theorem asking_eq {command : Command β} (hm : m.control = .perform command) :
    m.asking command = m := by
  unfold asking
  rw [← hm]

/-- No command is answered without a step. -/
theorem Answers.pos {command : Command β} {reply : Reply β} {k : Nat}
    (h : m.Answers client command reply k) : 0 < k := by
  cases k with
  | zero => cases h.control
  | succ k => exact Nat.succ_pos k

/-- What holds from the first step on until the stack is as it was ends with the answer. -/
theorem Answers.ends {command : Command β} {reply : Reply β} {k : Nat} {P Q : Nat → Prop}
    (h : m.Answers client command reply k) (hfirst : P 1 ∨ Q 1)
    (hstep : ∀ i, P i → P (i + 1) ∨ Q (i + 1))
    (hP : ∀ i, P i → m.stack.length < ((m.asking command).after client i).stack.length)
    (hQ : ∀ i, Q i → ((m.asking command).after client i).stack = m.stack) : Q k := by
  suffices ∀ i, 0 < i → i ≤ k → P i ∨ i = k ∧ Q k by
    rcases this k h.pos (Nat.le_refl k) with hp | ⟨-, hq⟩
    · exact absurd h.stack (stack_ne_of_busy (hP k hp))
    · exact hq
  -- as long as there is more on the stack, the end has not come
  have ended {i : Nat} (hi : 0 < i) (hik : i ≤ k) (hq : Q i) : i = k ∧ Q k := by
    rcases Nat.lt_or_eq_of_le hik with hlt | rfl
    · exact absurd (hQ i hq) (stack_ne_of_busy (h.busy i hi hlt))
    · exact ⟨rfl, hq⟩
  intro i hi hik
  induction i with
  | zero => cases hi
  | succ i ih =>
      cases i with
      | zero => exact hfirst.imp id (ended hi hik)
      | succ i =>
          rcases ih (Nat.succ_pos i) (Nat.le_of_succ_le hik) with hp | ⟨rfl, -⟩
          · exact (hstep _ hp).imp id (ended hi hik)
          · omega

/-- Whether a command is answered can be told from the height of the stack: what was on it before
stays there. -/
theorem Answers.of_length {command : Command β} {reply : Reply β} {k : Nat}
    (hbusy : ∀ i, 0 < i → i < k →
      m.stack.length < ((m.asking command).after client i).stack.length)
    (hlength : ((m.asking command).after client k).stack.length = m.stack.length)
    (hcontrol : ((m.asking command).after client k).control = .deliver reply) :
    m.Answers client command reply k := by
  have hbase : ∀ i, i ≤ k → m.stack <:+ ((m.asking command).after client i).stack := by
    intro i hi
    induction i with
    | zero => exact List.suffix_rfl
    | succ i ih =>
        obtain ⟨above, habove⟩ := ih (Nat.le_of_succ_le hi)
        cases above with
        | cons layer above =>
            exact (List.suffix_append above _).trans (stack_step_cons client habove.symm)
        | nil =>
            -- only the first step is made on top of what was there
            rcases Nat.eq_zero_or_pos i with rfl | hpos
            · exact ⟨_, (follows_perform (m := m.asking command) client rfl).stack.symm⟩
            · exact absurd habove.symm (stack_ne_of_busy (hbusy i hpos hi))
  exact ⟨hbusy, ((hbase k (Nat.le_refl k)).eq_of_length hlength.symm).symm, hcontrol⟩

/-- The same of a command that is asked for anyway. -/
theorem Answers.of_perform {command : Command β} {reply : Reply β} {k : Nat}
    (hm : m.control = .perform command)
    (hbusy : ∀ i, 0 < i → i < k → m.stack.length < (m.after client i).stack.length)
    (hlength : (m.after client k).stack.length = m.stack.length)
    (hcontrol : (m.after client k).control = .deliver reply) : m.Answers client command reply k := by
  rw [← asking_eq hm] at hbusy hlength hcontrol
  exact .of_length hbusy hlength hcontrol

/-- An operation stays in its place until it is on top and gets a reply; then it goes on. -/
theorem stays_or_resumes (client : Client σ β κ) {above : List (Layer β κ)} {f : Frame β}
    {base : List (Layer β κ)} (hs : m.stack = above ++ .operation f :: base) :
    (∃ above', (m.step client).stack = above' ++ .operation f :: base) ∨
      ∃ reply, above = [] ∧ m.control = .deliver reply ∧
        (m.step client).Follows (f.resume m.world reply) base := by
  cases above with
  | cons layer above =>
      obtain ⟨new, hnew⟩ := stack_step_cons client hs
      exact .inl ⟨new ++ above, by rw [← hnew, List.append_assoc]; rfl⟩
  | nil =>
      cases moved_step client m with
      | performs command hm hf => exact .inl ⟨_, hf.stack.trans (by rw [hs]; rfl)⟩
      | enters rest inv reply hm hw hs' hc =>
          exact .inl ⟨[.callback rest inv], hs'.trans (by rw [hs]; rfl)⟩
      | asks command k k' inv stack hw hs' hs'' hc => cases hs.symm.trans hs'
      | goesOn reply k k' inv stack hw hs' hs'' hc => cases hs.symm.trans hs'
      | leaves reply k inv stack hw hs' hs'' hc hr => cases hs.symm.trans hs'
      | rests reply hw hs' hm hc => exact .inl ⟨[], hs'.trans hs⟩
      | resumes frame reply stack hm hs' hf =>
          obtain ⟨hframe, rfl⟩ := List.cons.inj (hs.symm.trans hs')
          cases hframe
          exact .inr ⟨reply, rfl, hm, hf⟩

/-- A context that exists goes on existing. -/
theorem timetable?_step_ne_none (client : Client σ β κ) (h : m.world.timetable? c ≠ none) :
    (m.step client).world.timetable? c ≠ none := by
  obtain ⟨t, ht⟩ := Option.ne_none_iff_exists'.mp h
  obtain ⟨t', ht', -⟩ := ((turn_step client m).desk c).config ht
  rw [show (m.step client).world.timetable? c = some t' from ht']
  exact Option.some_ne_none t'

theorem timetable?_after_ne_none (client : Client σ β κ) (h : m.world.timetable? c ≠ none)
    (n : Nat) : (m.after client n).world.timetable? c ≠ none := by
  induction n with
  | zero => exact h
  | succ n ih => exact timetable?_step_ne_none client ih

/-- A context keeps its configuration. -/
theorem config_after (client : Client σ β κ) {x : MainContext β}
    (hx : m.world.context? c = some x) (n : Nat) :
    ∃ t, (m.after client n).world.timetable? c = some t ∧ t.config = x.config := by
  induction n with
  | zero => exact ⟨x.timetable, World.timetable?_eq hx, rfl⟩
  | succ n ih =>
      obtain ⟨t, ht, hconfig⟩ := ih
      obtain ⟨t', ht', hsame⟩ := ((turn_step client _).desk c).config ht
      exact ⟨t', ht', hsame.trans hconfig⟩

end Machine

/-! ## Iterations in progress -/

/-- An iteration of a context is in progress on some layers, and will answer whether it did
anything. -/
inductive Iterating (c : ContextId) (worked : Bool) (base : List (Layer β κ)) (m : Machine σ β κ) :
    Prop
  /-- Its pass over the tasks is in progress. -/
  | polls (above : List (Layer β κ)) (hs : m.stack = above ++ .operation (.collect c true) :: base)
      (hworked : worked = true)
  /-- It had no task to poll and is about to collect its sources. -/
  | looks (reply : Reply β) (hs : m.stack = .operation (.collect c false) :: base)
      (hm : m.control = .deliver reply)
      (hworked : ∀ t, m.world.timetable? c = some t → worked = !t.ready.isEmpty)
  /-- Its sources have their turns. -/
  | runs (above : List (Layer β κ)) (ready : List SourceId)
      (hs : m.stack = above ++ .operation (.iteration c ready worked) :: base)

namespace Iterating

variable (client : Client σ β κ) {c : ContextId} {worked : Bool} {base : List (Layer β κ)}
  {m : Machine σ β κ}

theorem length_lt (h : Iterating c worked base m) : base.length < m.stack.length := by
  cases h with
  | polls above hs hworked => simp [hs]; omega
  | looks reply hs hm hworked => simp [hs]
  | runs above ready hs => simp [hs]; omega

/-- The sources are collected. -/
theorem of_collect {m' : Machine σ β κ} {polled : Bool} (hexists : m.world.timetable? c ≠ none)
    (hf : m'.Follows (m.world.collect c polled) base)
    (hworked : ∀ t, m.world.timetable? c = some t → worked = (polled || !t.ready.isEmpty)) :
    Iterating c worked base m' := by
  obtain ⟨x, hx⟩ := World.exists_context hexists
  unfold World.collect at hf
  rw [hx] at hf
  rw [hworked _ (World.timetable?_eq hx)]
  exact .runs [] x.collectReady.2 hf.stack

/-- An iteration in progress goes on, or answers. -/
theorem step (h : Iterating c worked base m) (hexists : m.world.timetable? c ≠ none) :
    Iterating c worked base (m.step client) ∨
      (m.step client).stack = base ∧ (m.step client).control = .deliver (.flag worked) := by
  cases h with
  | polls above hs hworked =>
      rcases Machine.stays_or_resumes client hs with ⟨above', hs'⟩ | ⟨reply, -, -, hf⟩
      · exact .inl (.polls above' hs' hworked)
      · exact .inl (of_collect hexists hf fun _ _ => hworked)
  | looks reply hs hm hworked =>
      exact .inl (of_collect hexists (Machine.follows_resume client hm hs) hworked)
  | runs above ready hs =>
      rcases Machine.stays_or_resumes client hs with ⟨above', hs'⟩ | ⟨reply, -, -, hf⟩
      · exact .inl (.runs above' ready hs')
      · change (m.step client).Follows (m.world.continueIteration c ready worked) base at hf
        unfold World.continueIteration at hf
        cases ready with
        | nil => exact .inr ⟨hf.stack, hf.control⟩
        | cons id ready =>
            dsimp only at hf
            split at hf
            · exact .inl (.runs [] ready hf.stack)
            · next y work hy =>
                -- the work stands above the iteration
                obtain ⟨-, -, above, -, hframes⟩ := Turn.startWork_frames
                  (m.world.setContext c y) c id work
                  [.sourceEnd c id work.mayStay, .iteration c ready worked]
                refine .inl (.runs (above.map .operation ++
                  [.operation (.sourceEnd c id work.mayStay)]) ready ?_)
                rw [hf.stack, hframes]
                simp

/-- An iteration that is asked for will answer what is pending. -/
theorem of_iterate (hm : m.control = .perform (.iterate c)) {x : MainContext β}
    (hx : m.world.context? c = some x) (hsound : (m.desk c).Sound) :
    Iterating c x.pending m.stack (m.step client) := by
  have hf := Machine.follows_perform client hm
  have ht := World.timetable?_eq hx
  have hpending := Desk.Sound.pending_eq (hsound.present _ ht)
  change (m.step client).Follows (m.world.iterate c) m.stack at hf
  unfold World.iterate at hf
  rw [hx] at hf
  dsimp only at hf
  split at hf
  · next y hy =>
      refine .polls [.operation (.pass { context := c })] hf.stack ?_
      unfold MainContext.beginPass at hy
      split at hy
      · next htasks => rw [hpending, htasks, Bool.true_or]
      · cases hy
  · next hnone =>
      refine .looks .proceed hf.stack hf.control fun t ht' => ?_
      obtain rfl := Option.some.inj (((hf.world.timetable c).trans ht).symm.trans ht')
      unfold MainContext.beginPass at hnone
      split at hnone
      · cases hnone
      · next htasks => rw [hpending, Bool.eq_false_iff.mpr htasks, Bool.false_or]

end Iterating

/-! ## Iterations that find nothing to do -/

/-- An iteration of a context is in progress on some layers and does nothing in the steps that it has
left. -/
inductive Resting (c : ContextId) (base : List (Layer β κ)) : Nat → Machine σ β κ → Prop
  /-- It had no task to poll and is about to collect its sources, of which none is ready. -/
  | looks {m : Machine σ β κ} (reply : Reply β) (hs : m.stack = .operation (.collect c false) :: base)
      (hm : m.control = .deliver reply)
      (hready : ∀ t, m.world.timetable? c = some t → t.ready = []) : Resting c base 2 m
  /-- It has collected none. -/
  | closes {m : Machine σ β κ} (reply : Reply β)
      (hs : m.stack = .operation (.iteration c [] false) :: base) (hm : m.control = .deliver reply) :
      Resting c base 1 m

namespace Resting

variable (client : Client σ β κ) {c : ContextId} {base : List (Layer β κ)} {m : Machine σ β κ}
  {left : Nat}

theorem length_lt (h : Resting c base left m) : base.length < m.stack.length := by
  cases h with
  | looks reply hs hm hready => simp [hs]
  | closes reply hs hm => simp [hs]

/-- An iteration that is asked for rests if nothing is pending. -/
theorem of_iterate (hm : m.control = .perform (.iterate c)) {x : MainContext β}
    (hx : m.world.context? c = some x) (hsound : (m.desk c).Sound) (hidle : x.pending = false) :
    Resting c m.stack 2 (m.step client) := by
  rw [Desk.Sound.pending_eq (hsound.present _ (World.timetable?_eq hx)),
    Bool.or_eq_false_iff] at hidle
  have hf : (m.step client).Follows (m.world.iterate c) m.stack := Machine.follows_perform client hm
  have hiterate : m.world.iterate c = .proceed m.world [.collect c false] := by
    unfold World.iterate MainContext.beginPass
    rw [hx]
    simp only [hidle.1, Bool.false_eq_true, if_false]
  rw [hiterate] at hf
  refine .looks .proceed hf.stack hf.control fun t ht => ?_
  have hview := (hf.world.timetable c).trans (World.timetable?_eq hx)
  obtain rfl := Option.some.inj (hview.symm.trans ht)
  simpa using hidle.2

/-- It goes on so, or that was the last step and it answers that it did nothing. -/
theorem step (h : Resting c base (left + 1) m) (hexists : m.world.timetable? c ≠ none) :
    0 < left ∧ Resting c base left (m.step client) ∨
      left = 0 ∧ (m.step client).stack = base ∧ (m.step client).control = .deliver (.flag false) := by
  cases h with
  | looks reply hs hm hready =>
      have hf : (m.step client).Follows (m.world.collect c false) base :=
        Machine.follows_resume client hm hs
      obtain ⟨x, hx⟩ := World.exists_context hexists
      have hnone : x.collectReady.2 = [] :=
        (MainContext.ready_collectReady x).trans (hready _ (World.timetable?_eq hx))
      unfold World.collect at hf
      rw [hx] at hf
      dsimp only at hf
      rw [hnone] at hf
      exact .inl ⟨Nat.one_pos, .closes _ hf.stack hf.control⟩
  | closes reply hs hm =>
      have hf : (m.step client).Follows (m.world.continueIteration c [] false) base :=
        Machine.follows_resume client hm hs
      exact .inr ⟨rfl, hf.stack, hf.control⟩

end Resting

/-! ## Runs until idle in progress -/

namespace World

variable {w : World β} {c : ContextId} {count : Nat}

theorem drain_of_pending (h : w.Pending c) :
    w.drain c count = .perform w (.iterate c) [.drain c count] := by
  obtain ⟨x, hx, hpending⟩ := h
  unfold drain
  rw [hx]
  exact if_pos hpending

theorem drain_of_idle {x : MainContext β} (hx : w.context? c = some x) (hidle : x.pending = false) :
    w.drain c count = .reply w (.count count) := by
  unfold drain
  rw [hx]
  exact if_neg (Bool.eq_false_iff.mp hidle)

end World

/-- A run until idle is in progress on some layers. -/
inductive Draining (c : ContextId) (base : List (Layer β κ)) (m : Machine σ β κ) : Prop
  /-- Something is pending, and an iteration is asked for. -/
  | asks (count : Nat) (hs : m.stack = .operation (.drain c count) :: base)
      (hm : m.control = .perform (.iterate c)) (hpending : m.world.Pending c)
  /-- The iteration is in progress; it does something. -/
  | iterates (count : Nat) (h : Iterating c true (.operation (.drain c count) :: base) m)
  /-- It has done something. -/
  | hears (count : Nat) (hs : m.stack = .operation (.drain c count) :: base)
      (hm : m.control = .deliver (.flag true))

namespace Draining

variable (client : Client σ β κ) {c : ContextId} {base : List (Layer β κ)} {m : Machine σ β κ}

theorem length_lt (h : Draining c base m) : base.length < m.stack.length := by
  cases h with
  | asks count hs hm hpending => simp [hs]
  | iterates count h => exact Nat.lt_of_succ_lt h.length_lt
  | hears count hs hm => simp [hs]

/-- The run goes on, or nothing is pending and it answers. -/
theorem of_drain {count : Nat} (hexists : m.world.timetable? c ≠ none)
    (h : m.advance client = m.follow client base (m.world.drain c count)) :
    Draining c base (m.step client) ∨ (∃ x, m.world.context? c = some x ∧ x.pending = false) ∧
      m.advance client = m.follow client base (.reply m.world (.count count)) := by
  obtain ⟨x, hx⟩ := World.exists_context hexists
  cases hpending : x.pending with
  | true =>
      have hf := Machine.follows_of_advance client h
      rw [World.drain_of_pending ⟨x, hx, hpending⟩] at hf
      exact .inl (.asks count hf.stack hf.control (hf.world.pending ⟨x, hx, hpending⟩))
  | false =>
      rw [World.drain_of_idle hx hpending] at h
      exact .inr ⟨⟨x, hx, hpending⟩, h⟩

/-- A run until idle in progress goes on, or it has iterated, nothing is pending any more and it
answers. -/
theorem step (h : Draining c base m) (hexists : m.world.timetable? c ≠ none)
    (hsound : (m.desk c).Sound) :
    Draining c base (m.step client) ∨ ∃ count, m.stack = .operation (.drain c count) :: base ∧
      m.control = .deliver (.flag true) ∧
      (∃ x, m.world.context? c = some x ∧ x.pending = false) ∧
      m.advance client = m.follow client base (.reply m.world (.count (count + 1))) := by
  cases h with
  | asks count hs hm hpending =>
      obtain ⟨x, hx, hpending⟩ := hpending
      have hiterating := Iterating.of_iterate client hm hx hsound
      rw [hpending, hs] at hiterating
      exact .inl (.iterates count hiterating)
  | iterates count h =>
      rcases h.step client hexists with h | ⟨hs, hm⟩
      · exact .inl (.iterates count h)
      · exact .inl (.hears count hs hm)
  | hears count hs hm =>
      have hadvance := Machine.advance_resume client hm hs
      rcases of_drain client hexists hadvance with h | ⟨hidle, h⟩
      · exact .inl h
      · exact .inr ⟨count, hs, hm, hidle, h⟩

end Draining

/-! ## Deadlines -/

section Contract

variable {client : Client σ β κ} {m : Machine σ β κ} {c : ContextId}

/-- Desks stay sound when something else is asked for. -/
theorem Machine.Reachable.desk_asking (hreach : Reachable client m) (command : Command β) (i : Nat) :
    (((m.asking command).after client i).desk c).Sound := by
  induction i with
  | zero => exact hreach.desk c
  | succ i ih => exact ih.move ((turn_step client _).desk c)

theorem Machine.timetable?_asking_ne_none (client : Client σ β κ)
    (h : m.world.timetable? c ≠ none) (command : Command β) (i : Nat) :
    ((m.asking command).after client i).world.timetable? c ≠ none :=
  timetable?_after_ne_none (m := m.asking command) client h i

/-- An iteration answers whether something was pending when it was asked for. -/
theorem Machine.Answers.iterate (hreach : Reachable client m) {x : MainContext β}
    (hx : m.world.context? c = some x) {reply : Reply β} {k : Nat}
    (h : m.Answers client (.iterate c) reply k) : reply = .flag x.pending := by
  have hexists : m.world.timetable? c ≠ none := by simp [World.timetable?_eq hx]
  have hfirst := Iterating.of_iterate (m := m.asking (.iterate c)) client rfl hx (hreach.desk c)
  have hend := h.ends
    (P := fun i => Iterating c x.pending m.stack ((m.asking (.iterate c)).after client i))
    (Q := fun i => ((m.asking (.iterate c)).after client i).stack = m.stack ∧
      ((m.asking (.iterate c)).after client i).control = .deliver (.flag x.pending))
    (.inl hfirst) (fun i hi => hi.step client (timetable?_asking_ne_none client hexists _ i))
    (fun i hi => hi.length_lt) fun i hi => hi.1
  exact Control.deliver.inj (h.control.symm.trans hend.2)

/-- A run until idle ends only when nothing is pending. -/
theorem Machine.Answers.runUntilIdle (hreach : Reachable client m)
    (hexists : m.world.timetable? c ≠ none) {reply : Reply β} {k : Nat}
    (h : m.Answers client (.runUntilIdle c) reply (k + 1)) :
    ∃ count x, reply = .count count ∧
      ((m.asking (.runUntilIdle c)).after client k).world.context? c = some x ∧
      x.pending = false := by
  have hadvance : (m.asking (.runUntilIdle c)).advance client =
      (m.asking (.runUntilIdle c)).follow client m.stack (m.world.drain c 0) :=
    advance_perform (m := m.asking (.runUntilIdle c)) client rfl
  have hfirst := Draining.of_drain (m := m.asking (.runUntilIdle c)) client hexists hadvance
  have answered {n : Machine σ β κ} {count : Nat}
      (h : n.advance client = n.follow client m.stack (.reply n.world (.count count))) :
      (n.step client).stack = m.stack ∧ (n.step client).control = .deliver (.count count) := by
    rw [stack_step, control_step, h]
    exact ⟨rfl, rfl⟩
  have hend := h.ends
    (P := fun i => Draining c m.stack ((m.asking (.runUntilIdle c)).after client i))
    (Q := fun i => ((m.asking (.runUntilIdle c)).after client i).stack = m.stack ∧
      ∃ count x, ((m.asking (.runUntilIdle c)).after client i).control = .deliver (.count count) ∧
        ((m.asking (.runUntilIdle c)).after client (i - 1)).world.context? c = some x ∧
          x.pending = false)
    (hfirst.imp id fun ⟨⟨x, hx, hp⟩, h⟩ =>
      ⟨(answered h).1, 0, x, (answered h).2, hx, hp⟩)
    (fun i hi => (hi.step client (timetable?_asking_ne_none client hexists _ i)
      (hreach.desk_asking _ i)).imp id fun ⟨count, _, _, ⟨x, hx, hp⟩, h⟩ =>
        ⟨(answered h).1, count + 1, x, (answered h).2, hx, hp⟩)
    (fun i hi => hi.length_lt) fun i hi => hi.1
  obtain ⟨-, count, x, hm, hx, hp⟩ := hend
  exact ⟨count, x, Control.deliver.inj (h.control.symm.trans hm), hx, hp⟩

end Contract

end ObjectSystem
