import ObjectSystem.Proofs.Fate
import ObjectSystem.Proofs.Run

/-!
# A clock that is moved from outside

While no callback moves the clock of a context, operations that do so are the outermost ones: an
advance in progress has no iteration below it. `Clockwork` is what holds then. It has three parts:

* every layer is `Placed` where it may be — an advance waits for runs until idle only, such a run
  for iterations only, and below a clock that moves no source waits or runs;
* what an operation in progress will be told is what it counts on (`Awaits`): a run until idle is
  told by every iteration that it did something, an advance is told that nothing is due any more;
* no timeout is late (`Timely`).

`Clockwork.step` carries all three through every step.
-/

namespace ObjectSystem

variable {σ β κ : Type}

open Machine (marks)

/-! ## What moves a clock -/

/-- Whether a command moves the clock of a context: an advance, or a loop, which advances. -/
def Command.movesClock (c : ContextId) : Command β → Bool
  | .advance d _ => d = c
  | .runLoop _ => true
  | _ => false

/-- Whether an operation in progress moves the clock of a context. -/
def Frame.movesClock (c : ContextId) : Frame β → Bool
  | .advance d _ _ _ => d = c
  | .loop _ | .looped _ => true
  | _ => false

/-- Whether a callback other than the outermost program is about to move the clock of a context. -/
def Machine.nestsClock (m : Machine σ β κ) (c : ContextId) : Bool :=
  match m.asked with
  | some command => command.movesClock c && m.stack.length != 1
  | none => false

/-- Whether it matters to an operation in progress what is above it, or what it is told. -/
def Frame.isDriver (c : ContextId) : Frame β → Bool
  | .advance d _ _ _ => d = c
  | .drain d _ => d = c
  | .collect d polled => d = c && !polled
  | _ => false

/-- Whether an operation in progress neither moves the clock nor minds what is above it. -/
def Frame.isBystander (c : ContextId) (f : Frame β) : Bool :=
  !f.isDriver c && !f.movesClock c

theorem Frame.isBystander_of_isQuiet {f : Frame β} (h : f.isQuiet = true) (c : ContextId) :
    f.isBystander c = true := by
  cases f <;> first | rfl | cases h

/-- No operation on a stack has sources to run, or minds what is above it. -/
def Clear (c : ContextId) (stack : List (Layer β κ)) : Prop :=
  ∀ f, .operation f ∈ stack → f.isMark = false ∧ f.isDriver c = false

theorem Clear.marks {c : ContextId} {stack : List (Layer β κ)} (h : Clear c stack) :
    marks stack = [] := by
  induction stack with
  | nil => rfl
  | cons layer stack ih =>
      have hrest := ih fun f hf => h f (List.mem_cons_of_mem _ hf)
      cases layer with
      | callback k inv => exact hrest
      | operation f =>
          rw [Machine.marks_operation, (h f (by simp)).1]
          exact hrest

/-- Whether the innermost layer is an operation to which it matters what is above it. -/
def DriverOnTop (c : ContextId) : List (Layer β κ) → Prop
  | .operation f :: _ => f.isDriver c = true
  | _ => False

/-! ## Where layers stand -/

/-- Whether a layer may stand directly on a stack. -/
def Fits (c : ContextId) (upper : Layer β κ) : List (Layer β κ) → Prop
  | .operation (.advance d _ _ _) :: _ => d = c → ∃ count, upper = .operation (.drain c count)
  | .operation (.drain d _) :: _ => d = c →
      (∃ polled, upper = .operation (.collect c polled)) ∨
        ∃ ready, upper = .operation (.iteration c ready true)
  | .operation (.collect d polled) :: _ => d = c → polled = true
  | _ => True

/-- What holds of a layer and the stack below it. -/
structure Placed (c : ContextId) (t? : Option (Timetable β)) (layer : Layer β κ)
    (stack : List (Layer β κ)) : Prop where
  fits : Fits c layer stack
  /-- Below a clock that moves, nothing is in progress that has to do with sources. -/
  moves : ∀ f, layer = .operation f → f.movesClock c = true → Clear c stack
  /-- An advance has its target ahead until it is reached. -/
  target : ∀ target count stage, layer = .operation (.advance c target count stage) →
    ∃ t, t? = some t ∧ t.now ≤ target ∧ (stage = .after → t.now = target)
  exist : ∀ count, layer = .operation (.drain c count) → t? ≠ none

/-- Every layer is placed where it may be. -/
def Ordered (c : ContextId) (t? : Option (Timetable β)) : List (Layer β κ) → Prop
  | [] => True
  | layer :: stack => Placed c t? layer stack ∧ Ordered c t? stack

/-- A timetable of the same clock. -/
def SameClock : Option (Timetable β) → Option (Timetable β) → Prop :=
  fun t? u? => ∀ t, t? = some t → ∃ u, u? = some u ∧ u.now = t.now ∧ u.config = t.config

/-- What may stand on an operation that minds: a run until idle on an advance, an iteration on a run
until idle. -/
theorem Fits.cases {c : ContextId} {upper : Layer β κ} {stack : List (Layer β κ)}
    (h : Fits c upper stack) :
    (∃ target n stage below count,
      stack = .operation (.advance c target n stage) :: below ∧
        upper = .operation (.drain c count)) ∨
    (∃ n below, stack = .operation (.drain c n) :: below ∧
      ((∃ polled, upper = .operation (.collect c polled)) ∨
        ∃ ready, upper = .operation (.iteration c ready true))) ∨
    ¬ DriverOnTop c stack := by
  match stack with
  | [] => exact .inr (.inr id)
  | .callback _ _ :: _ => exact .inr (.inr id)
  | .operation f :: below =>
      cases f with
      | advance d target n stage =>
          by_cases hd : d = c
          · subst hd
            obtain ⟨count, hcount⟩ := h rfl
            exact .inl ⟨target, n, stage, below, count, rfl, hcount⟩
          · exact .inr (.inr (by simp [DriverOnTop, Frame.isDriver, hd]))
      | drain d n =>
          by_cases hd : d = c
          · subst hd
            exact .inr (.inl ⟨n, below, rfl, h rfl⟩)
          · exact .inr (.inr (by simp [DriverOnTop, Frame.isDriver, hd]))
      | collect d polled =>
          refine .inr (.inr fun hdriver => ?_)
          simp only [DriverOnTop, Frame.isDriver, Bool.and_eq_true, Bool.not_eq_true',
            decide_eq_true_eq] at hdriver
          rw [h hdriver.1] at hdriver
          cases hdriver.2
      | _ => exact .inr (.inr (by simp [DriverOnTop, Frame.isDriver]))

theorem fits_of_not_driver {c : ContextId} {upper : Layer β κ} {stack : List (Layer β κ)}
    (h : ¬ DriverOnTop c stack) : Fits c upper stack := by
  match stack with
  | [] => trivial
  | .callback _ _ :: _ => trivial
  | .operation f :: _ =>
      cases f with
      | advance d target count stage =>
          intro hd
          exact absurd (by simp [DriverOnTop, Frame.isDriver, hd]) h
      | drain d count =>
          intro hd
          exact absurd (by simp [DriverOnTop, Frame.isDriver, hd]) h
      | collect d polled =>
          intro hd
          cases polled with
          | true => rfl
          | false => exact absurd (by simp [DriverOnTop, Frame.isDriver, hd]) h
      | _ => trivial

/-- Only runs until idle and iterations stand on operations that mind. -/
theorem not_driver_of_fits {c : ContextId} {upper : Layer β κ} {stack : List (Layer β κ)}
    (h : Fits c upper stack)
    (hu : ∀ f, upper = .operation f → (∀ count, f ≠ .drain c count) ∧
      (∀ polled, f ≠ .collect c polled) ∧ ∀ ready, f ≠ .iteration c ready true) :
    ¬ DriverOnTop c stack := by
  rcases h.cases with ⟨-, -, -, -, count, -, hf⟩ | ⟨-, -, -, ⟨polled, hf⟩ | ⟨ready, hf⟩⟩ | hd
  · exact absurd rfl ((hu _ hf).1 count)
  · exact absurd rfl ((hu _ hf).2.1 polled)
  · exact absurd rfl ((hu _ hf).2.2 ready)
  · exact hd

namespace Placed

variable {c : ContextId} {t? u? : Option (Timetable β)} {stack : List (Layer β κ)}

theorem of_callback (k : κ) (inv : Invocation) (h : ¬ DriverOnTop c stack) :
    Placed c t? (.callback k inv) stack :=
  ⟨fits_of_not_driver h, fun _ hf => (by cases hf), fun _ _ _ hf => (by cases hf),
    fun _ hf => (by cases hf)⟩

theorem of_bystander {f : Frame β} (hf : f.isBystander c = true) (h : Fits c (.operation f) stack) :
    Placed c t? (.operation f) stack := by
  simp only [Frame.isBystander, Bool.and_eq_true, Bool.not_eq_true'] at hf
  refine ⟨h, ?_, ?_, ?_⟩
  · intro g hg hmoves
    cases hg
    rw [hf.2] at hmoves
    cases hmoves
  · intro target count stage hg
    cases hg
    simp [Frame.isDriver] at hf
  · intro count hg
    cases hg
    simp [Frame.isDriver] at hf

theorem clock {layer : Layer β κ} (h : Placed c t? layer stack) (hclock : SameClock t? u?) :
    Placed c u? layer stack := by
  refine ⟨h.fits, h.moves, ?_, ?_⟩
  · intro target count stage hl
    obtain ⟨t, ht, hle, hafter⟩ := h.target target count stage hl
    obtain ⟨u, hu, hnow, -⟩ := hclock t ht
    exact ⟨u, hu, by omega, fun hs => by rw [hnow, hafter hs]⟩
  · intro count hl
    obtain ⟨t, ht⟩ := Option.ne_none_iff_exists'.mp (h.exist count hl)
    obtain ⟨u, hu, -⟩ := hclock t ht
    rw [hu]
    exact Option.some_ne_none u

end Placed

namespace Ordered

variable {c : ContextId} {t? u? : Option (Timetable β)} {stack : List (Layer β κ)}

theorem clock (h : Ordered c t? stack) (hclock : SameClock t? u?) : Ordered c u? stack := by
  induction stack with
  | nil => trivial
  | cons layer stack ih => exact ⟨h.1.clock hclock, ih h.2⟩

/-- A clear stack stays in order, whatever happens to the clock. -/
theorem clear (h : Ordered c t? stack) (hclear : Clear c stack) : Ordered c u? stack := by
  induction stack with
  | nil => trivial
  | cons layer stack ih =>
      refine ⟨⟨h.1.fits, h.1.moves, ?_, ?_⟩, ih h.2 fun f hf => hclear f (by simp [hf])⟩
      · rintro target count stage rfl
        have := (hclear _ List.mem_cons_self).2
        simp [Frame.isDriver] at this
      · rintro count rfl
        have := (hclear _ List.mem_cons_self).2
        simp [Frame.isDriver] at this

end Ordered

/-! ## What operations are told -/

namespace World

/-- Whether a timeout in the queue of a context is due. -/
def SomeDue (w : World β) (c : ContextId) : Prop :=
  ∃ t, w.timetable? c = some t ∧ ∃ s ∈ t.sources, t.Due s

def NoneDue (w : World β) (c : ContextId) : Prop :=
  ∀ t, w.timetable? c = some t → ∀ s ∈ t.sources, ¬ t.Due s

/-- Whether an iteration that begins now finds a source to run. -/
def SomeReady (w : World β) (c : ContextId) : Prop :=
  ∃ t, w.timetable? c = some t ∧ t.ready ≠ []

variable {w v : World β} {c : ContextId}

theorem Calm.noneDue (h : Calm w v) (hdue : w.NoneDue c) : v.NoneDue c := by
  intro t ht
  exact hdue t ((h.timetable c).symm.trans ht)

theorem Calm.someReady (h : Calm w v) (hready : w.SomeReady c) : v.SomeReady c := by
  obtain ⟨t, ht, hs⟩ := hready
  exact ⟨t, (h.timetable c).trans ht, hs⟩

end World

/-- What the innermost operation is told, or has just asked for, is what it counts on. -/
def Awaits (c : ContextId) (w : World β) (control : Control β) : List (Layer β κ) → Prop
  | .operation (.advance d _ _ stage) :: _ => d = c →
      (control = .perform (.runUntilIdle c) ∧ (stage = .within → w.SomeDue c)) ∨
        ∃ n, control = .deliver (.count n) ∧ w.NoneDue c ∧ (stage = .within → 0 < n)
  | .operation (.drain d _) :: _ => d = c →
      (control = .perform (.iterate c) ∧ (w.TasksReady c ∨ w.SomeReady c)) ∨
        control = .deliver (.flag true)
  | .operation (.collect d polled) :: stack => d = c → polled = false →
      (∃ reply, control = .deliver reply) ∧
        (∀ count rest, stack = .operation (.drain c count) :: rest → w.SomeReady c)
  | _ => True

/-- Which operations mind what they are told, and what that is. -/
theorem Awaits.cases {c : ContextId} {w : World β} {control : Control β}
    {stack : List (Layer β κ)} (h : Awaits c w control stack) :
    (∃ target n stage below, stack = .operation (.advance c target n stage) :: below ∧
      ((control = .perform (.runUntilIdle c) ∧ (stage = .within → w.SomeDue c)) ∨
        ∃ n, control = .deliver (.count n) ∧ w.NoneDue c ∧ (stage = .within → 0 < n))) ∨
    (∃ count below, stack = .operation (.drain c count) :: below ∧
      ((control = .perform (.iterate c) ∧ (w.TasksReady c ∨ w.SomeReady c)) ∨
        control = .deliver (.flag true))) ∨
    (∃ below, stack = .operation (.collect c false) :: below ∧
      ∃ reply, control = .deliver reply) ∨
    ¬ DriverOnTop c stack := by
  match stack with
  | [] => exact .inr (.inr (.inr id))
  | .callback _ _ :: _ => exact .inr (.inr (.inr id))
  | .operation f :: below =>
      cases f with
      | advance d target n stage =>
          by_cases hd : d = c
          · subst hd
            exact .inl ⟨target, n, stage, below, rfl, h rfl⟩
          · exact .inr (.inr (.inr (by simp [DriverOnTop, Frame.isDriver, hd])))
      | drain d count =>
          by_cases hd : d = c
          · subst hd
            exact .inr (.inl ⟨count, below, rfl, h rfl⟩)
          · exact .inr (.inr (.inr (by simp [DriverOnTop, Frame.isDriver, hd])))
      | collect d polled =>
          by_cases hdriver : d = c ∧ polled = false
          · obtain ⟨rfl, rfl⟩ := hdriver
            exact .inr (.inr (.inl ⟨below, rfl, (h rfl rfl).1⟩))
          · exact .inr (.inr (.inr (by simpa [DriverOnTop, Frame.isDriver] using hdriver)))
      | _ => exact .inr (.inr (.inr (by simp [DriverOnTop, Frame.isDriver])))

theorem awaits_of_not_driver {c : ContextId} {w : World β} {control : Control β}
    {stack : List (Layer β κ)} (h : ¬ DriverOnTop c stack) : Awaits c w control stack := by
  match stack with
  | [] => trivial
  | .callback _ _ :: _ => trivial
  | .operation f :: _ =>
      cases f with
      | advance d target count stage =>
          intro hd
          exact absurd (by simp [DriverOnTop, Frame.isDriver, hd]) h
      | drain d count =>
          intro hd
          exact absurd (by simp [DriverOnTop, Frame.isDriver, hd]) h
      | collect d polled =>
          intro hd hp
          exact absurd (by simp [DriverOnTop, Frame.isDriver, hd, hp]) h
      | _ => trivial

/-- Only two commands are asked for by operations that mind what they are told. -/
theorem Awaits.not_driver {c : ContextId} {w : World β} {control : Control β}
    {stack : List (Layer β κ)} (h : Awaits c w control stack)
    (hdeliver : ∀ reply, control ≠ .deliver reply)
    (hdrain : control ≠ .perform (.runUntilIdle c)) (hiterate : control ≠ .perform (.iterate c)) :
    ¬ DriverOnTop c stack := by
  rcases h.cases with ⟨-, -, -, -, -, ⟨hc, -⟩ | ⟨n, hc, -⟩⟩ | ⟨-, -, -, ⟨hc, -⟩ | hc⟩ |
    ⟨-, -, reply, hc⟩ | hd
  · exact absurd hc hdrain
  · exact absurd hc (hdeliver _)
  · exact absurd hc hiterate
  · exact absurd hc (hdeliver _)
  · exact absurd hc (hdeliver _)
  · exact hd

/-! ## No timeout is late -/

/-- No timeout with a number from some on is late, and those that wait are due right now. -/
def Timely (since : Nat) (d : Desk β) : Prop :=
  ∀ t, d.timetable = some t → ∀ s ∈ t.sources, since ≤ s.id.number → s.kind.isIdle = false →
    t.now ≤ s.readyAt ∧ (s.id ∈ d.waiting → s.readyAt = t.now)

namespace Desk

variable {ticking : Prop} {d d' : Desk β}

/-- The clock stands still unless it ticks. -/
theorem Move.sameClock (hm : Move ticking d d') (hnot : ¬ ticking) :
    SameClock d.timetable d'.timetable := by
  intro t ht
  cases hm with
  | edits he hw hr =>
      rw [ht] at he
      generalize d'.timetable = u? at he
      cases he with
      | some he => exact ⟨_, rfl, he.now, he.config⟩
  | opens config hnone ht' hw hr => rw [hnone] at ht; cases ht
  | drops hnone ht' hw hr => rw [hnone] at ht; cases ht
  | ticks t now htick ht ht' hw hr => exact absurd htick hnot
  | collects u hu hu' hw hr =>
      obtain rfl := Option.some.inj (hu.symm.trans ht)
      exact ⟨_, hu', rfl, rfl⟩
  | skips u id hu hu' hid hw hr =>
      obtain rfl := Option.some.inj (hu.symm.trans ht)
      exact ⟨_, hu', rfl, rfl⟩
  | begins u id s hu hu' hs hrun hw hr =>
      obtain rfl := Option.some.inj (hu.symm.trans ht)
      exact ⟨_, hu', rfl, rfl⟩
  | ends u id mayStay stays hstay hu hu' hw hr =>
      obtain rfl := Option.some.inj (hu.symm.trans ht)
      exact ⟨_, hu', u.now_settle id stays, u.config_settle id stays⟩

end Desk

theorem Timely.move {since : Nat} {ticking : Prop} {d d' : Desk β} (h : Timely since d)
    (hsound : d.Sound) (hm : Desk.Move ticking d d') (hnot : ¬ ticking) : Timely since d' := by
  cases hm with
  | edits he hw hr =>
      intro u hu s hs hsince hkind
      rw [hu] at he
      cases ht : d.timetable with
      | none =>
          rw [ht] at he
          cases he
      | some t =>
          rw [ht] at he
          cases he with
          | some he =>
              rw [he.now, hw]
              rcases he.mem hs with hs | ⟨hnew, -, hready⟩
              · exact h t ht s hs hsince hkind
              · refine ⟨by omega, fun hin => ?_⟩
                have := (hsound.present t ht).waits_lt _ hin
                omega
  | opens config hnone ht' hw hr =>
      intro u hu s hs
      obtain rfl := Option.some.inj (ht'.symm.trans hu)
      cases hs
  | drops hnone ht' hw hr =>
      intro u hu
      cases ht'.symm.trans hu
  | ticks t now htick ht ht' hw hr => exact absurd htick hnot
  | collects t ht ht' hw hr =>
      intro u hu s hs hsince hkind
      obtain rfl := Option.some.inj (ht'.symm.trans hu)
      obtain ⟨hle, hwait⟩ := h t ht s hs hsince hkind
      refine ⟨hle, fun hin => ?_⟩
      rw [hw] at hin
      rcases List.mem_append.mp hin with hin | hin
      · -- what was collected had passed its deadline, and is not late
        obtain ⟨q, hq, hcollects, hid⟩ := Timetable.collects_of_mem_ready hin
        obtain rfl := (hsound.present t ht).eq_of_id hq hs hid
        exact Nat.le_antisymm (hcollects.due hkind).1.2 hle
      · exact hwait hin
  | skips t id ht ht' hid hw hr =>
      intro u hu s hs hsince hkind
      obtain rfl := Option.some.inj (ht'.symm.trans hu)
      obtain ⟨hle, hwait⟩ := h t ht s hs hsince hkind
      exact ⟨hle, fun hin => hwait (by rw [hw]; exact List.mem_cons_of_mem _ hin)⟩
  | begins t id q ht ht' hq hrun hw hr =>
      intro u hu s hs hsince hkind
      obtain rfl := Option.some.inj (ht'.symm.trans hu)
      obtain ⟨r, hr', rfl⟩ := Timetable.mem_modify.mp hs
      have hfields : (if r.id = id then { r with running := true } else r : Source β).id = r.id ∧
          (if r.id = id then { r with running := true } else r : Source β).kind = r.kind ∧
          (if r.id = id then { r with running := true } else r : Source β).readyAt =
            r.readyAt := by
        split <;> exact ⟨rfl, rfl, rfl⟩
      rw [hfields.1] at hsince
      rw [hfields.2.1] at hkind
      rw [hfields.1, hfields.2.2]
      obtain ⟨hle, hwait⟩ := h t ht r hr' hsince hkind
      exact ⟨hle, fun hin => hwait (by rw [hw]; exact List.mem_cons_of_mem _ hin)⟩
  | ends t id mayStay stays hstay ht ht' hw hr =>
      intro u hu s hs hsince hkind
      obtain rfl := Option.some.inj (ht'.symm.trans hu)
      have hs' := hsound.present t ht
      rw [hw, Timetable.now_settle]
      unfold Timetable.settle at hs
      split at hs
      · obtain ⟨r, hr', rfl⟩ := Timetable.mem_modify.mp hs
        by_cases hrid : r.id = id
        · rw [if_pos hrid] at hsince hkind ⊢
          have hrun : r.running = true := (hs'.runs r hr').mpr (by rw [hr]; simp [hrid])
          cases hk : r.kind with
          | idle => simp [MainContext.rearm, hk, SourceKind.isIdle] at hkind
          | timeout interval =>
              have hphase := hs'.phase r hr' (by rw [hk]; rfl)
              rw [hrun, Bool.toNat_true] at hphase
              have hnotin : r.id ∉ d.waiting := by
                rw [← List.count_eq_zero]
                omega
              simp only [MainContext.rearm, hk]
              refine ⟨Nat.le_add_right _ _, fun hin => absurd hin hnotin⟩
        · rw [if_neg hrid] at hsince hkind ⊢
          exact h t ht r hr' hsince hkind
      · exact h t ht s (List.mem_of_mem_filter hs) hsince hkind

end ObjectSystem
