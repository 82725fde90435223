import ObjectSystem.Proofs.Turn

/-!
# Runs

A run is the sequence of states that a client steps through. This module names what is said about
its states: what a callback has just asked for, the time of a context, its sources; and it has the
two facts about stacks that every run obeys: a step replaces at most the innermost layer
(`stack_step_cons`), and nothing is below the outermost program (`Reachable.bottom`).
-/

namespace ObjectSystem

variable {σ β κ : Type}

namespace Machine

/-- The state after a number of steps. -/
def after (client : Client σ β κ) (m : Machine σ β κ) : Nat → Machine σ β κ
  | 0 => m
  | n + 1 => (after client m n).step client

theorem after_add (client : Client σ β κ) (m : Machine σ β κ) (j k : Nat) :
    m.after client (j + k) = (m.after client j).after client k := by
  induction k with
  | zero => rfl
  | succ k ih => exact congrArg (Machine.step client) ih

theorem after_step (client : Client σ β κ) (m : Machine σ β κ) (i : Nat) :
    (m.step client).after client i = m.after client (1 + i) :=
  (after_add client m 1 i).symm

theorem after_succ (client : Client σ β κ) (m : Machine σ β κ) (i : Nat) :
    (m.step client).after client i = m.after client (i + 1) := by
  rw [after_step, Nat.add_comm]

/-- Whether so many states of a run pass a check, from the first one on. -/
def throughout (client : Client σ β κ) (check : Machine σ β κ → Bool) :
    Nat → Machine σ β κ → Bool
  | 0, _ => true
  | n + 1, m => check m && throughout client check n (m.step client)

theorem throughout_iff {client : Client σ β κ} {check : Machine σ β κ → Bool} {n : Nat}
    {m : Machine σ β κ} :
    m.throughout client check n = true ↔ ∀ i, i < n → check (m.after client i) = true := by
  induction n generalizing m with
  | zero => exact ⟨fun _ i hi => absurd hi (Nat.not_lt_zero i), fun _ => rfl⟩
  | succ n ih =>
      rw [throughout, Bool.and_eq_true, ih]
      simp only [after_step]
      constructor
      · rintro ⟨hfirst, hrest⟩ i hi
        cases i with
        | zero => exact hfirst
        | succ i => exact Nat.add_comm 1 i ▸ hrest i (Nat.lt_of_succ_lt_succ hi)
      · intro h
        exact ⟨h 0 (Nat.succ_pos n), fun i hi => h (1 + i) (by omega)⟩

/-- What is noted of the states of a run, up to so many steps. -/
def log {α : Type} (client : Client σ β κ) (note : Machine σ β κ → Option α) (m : Machine σ β κ)
    (n : Nat) : List α :=
  (List.range n).filterMap fun i => note (m.after client i)

theorem log_add {α : Type} (client : Client σ β κ) (note : Machine σ β κ → Option α)
    (m : Machine σ β κ) (j k : Nat) :
    log client note m (j + k) = log client note m j ++ log client note (m.after client j) k := by
  unfold log
  rw [List.range_add, List.filterMap_append, List.filterMap_map]
  refine congrArg (_ ++ List.filterMap · _) (funext fun i => ?_)
  rw [Function.comp_apply, after_add]

theorem log_eq_nil {α : Type} {client : Client σ β κ} {note : Machine σ β κ → Option α}
    {m : Machine σ β κ} {n : Nat} (h : ∀ i, i < n → note (m.after client i) = none) :
    log client note m n = [] :=
  List.filterMap_eq_nil_iff.mpr fun i hi => h i (List.mem_range.mp hi)

theorem log_one {α : Type} (client : Client σ β κ) (note : Machine σ β κ → Option α)
    (m : Machine σ β κ) : log client note m 1 = (note m).toList := by
  unfold log
  cases h : note (m.after client 0) <;> simp_all [List.range_one, after]

/-- Of a run in which only one state is worth a note, that is all that is noted. -/
theorem log_eq_of_once {α : Type} {client : Client σ β κ} {note : Machine σ β κ → Option α}
    {m : Machine σ β κ} {j n : Nat} (hj : j < n)
    (h : ∀ i, i < n → i ≠ j → note (m.after client i) = none) :
    log client note m n = (note (m.after client j)).toList := by
  obtain ⟨k, rfl⟩ := Nat.exists_eq_add_of_lt hj
  have hbefore : log client note m j = [] :=
    log_eq_nil fun i hi => h i (Nat.lt_trans hi hj) (Nat.ne_of_lt hi)
  have hafter : log client note ((m.after client j).after client 1) k = [] := by
    refine log_eq_nil fun i hi => ?_
    rw [← after_add, ← after_add]
    exact h _ (by omega) (by omega)
  rw [Nat.add_assoc, log_add, Nat.add_comm k 1, log_add, hbefore, hafter, log_one, List.nil_append,
    List.append_nil]

theorem Reachable.after {client : Client σ β κ} {m : Machine σ β κ} (h : Reachable client m)
    (n : Nat) : Reachable client (m.after client n) := by
  induction n with
  | zero => exact h
  | succ n ih => exact ih.step

/-- The command that a callback has issued in this moment. -/
def asked (m : Machine σ β κ) : Option (Command β) :=
  match m.control, m.stack with
  | .perform command, .callback _ _ :: _ => some command
  | _, _ => none

theorem of_asked {m : Machine σ β κ} {command : Command β} (h : m.asked = some command) :
    m.control = .perform command ∧ ∃ rest inv stack, m.stack = .callback rest inv :: stack := by
  unfold asked at h
  split at h
  · next command' rest inv stack hm hs =>
      rw [hm, Option.some.inj h]
      exact ⟨rfl, rest, inv, stack, hs⟩
  · cases h

/-- The time of a context. -/
def time (m : Machine σ β κ) (c : ContextId) : Nat :=
  ((m.world.context? c).map (·.now)).getD 0

/-- An attached source of a context. -/
def source? (m : Machine σ β κ) (c : ContextId) (id : SourceId) : Option (Source β) :=
  (m.world.context? c).bind (·.source? id)

section
variable {m : Machine σ β κ} {c : ContextId} {t : Timetable β}

theorem time_eq (ht : m.world.timetable? c = some t) : m.time c = t.now := by
  obtain ⟨x, hx, rfl⟩ := Option.map_eq_some_iff.mp ht
  simp [time, hx, MainContext.timetable]

theorem source?_eq (ht : m.world.timetable? c = some t) (id : SourceId) :
    m.source? c id = t.sources.find? (·.id = id) := by
  obtain ⟨x, hx, rfl⟩ := Option.map_eq_some_iff.mp ht
  simp [source?, hx, MainContext.timetable, MainContext.source?]

theorem source?_none (ht : m.world.timetable? c = none) (id : SourceId) :
    m.source? c id = none := by
  have hx : m.world.context? c = none := Option.map_eq_none_iff.mp ht
  simp [source?, hx]

theorem timetable_of_source? {id : SourceId} {s : Source β} (hs : m.source? c id = some s) :
    ∃ t, m.world.timetable? c = some t ∧ t.sources.find? (·.id = id) = some s := by
  cases ht : m.world.timetable? c with
  | none =>
      rw [source?_none ht] at hs
      cases hs
  | some t => exact ⟨t, rfl, (source?_eq ht id).symm.trans hs⟩

end

/-! ## Stacks -/

/-- A stack with more layers than another is not that one. -/
theorem stack_ne_of_busy {m : Machine σ β κ} {base : List (Layer β κ)}
    (h : base.length < m.stack.length) : m.stack ≠ base := by
  rintro rfl
  exact Nat.lt_irrefl _ h

/-- A step leaves the layers below the innermost one alone. -/
theorem stack_step_cons (client : Client σ β κ) {m : Machine σ β κ} {layer : Layer β κ}
    {stack : List (Layer β κ)} (hs : m.stack = layer :: stack) :
    stack <:+ (m.step client).stack := by
  cases moved_step client m with
  | performs command hm h =>
      rw [h.stack, hs]
      exact (List.suffix_cons _ _).trans (List.suffix_append _ _)
  | resumes frame reply rest hm hs' h =>
      rw [h.stack]
      obtain rfl := (List.cons.inj (hs.symm.trans hs')).2
      exact List.suffix_append _ _
  | enters rest inv reply hm hw hs' hc =>
      rw [hs', hs]
      exact (List.suffix_cons _ _).trans (List.suffix_cons _ _)
  | asks command k k' inv rest hw hs' hs'' hc =>
      obtain rfl := (List.cons.inj (hs.symm.trans hs')).2
      rw [hs'']
      exact List.suffix_cons _ _
  | goesOn reply k k' inv rest hw hs' hs'' hc =>
      obtain rfl := (List.cons.inj (hs.symm.trans hs')).2
      rw [hs'']
      exact List.suffix_cons _ _
  | leaves reply k inv rest hw hs' hs'' hc hr =>
      obtain rfl := (List.cons.inj (hs.symm.trans hs')).2
      exact hs'' ▸ List.suffix_rfl
  | rests reply hw hs' hm hc =>
      rw [hs', hs]
      exact List.suffix_cons _ _

/-- The outermost layer is the program: it is about to start, in progress, or has ended. -/
theorem Reachable.bottom {client : Client σ β κ} {m : Machine σ β κ} (h : Reachable client m) :
    (∃ rest inv, [.callback rest inv] <:+ m.stack) ∨
      m.stack = [] ∧ ((∃ callback inv, m.control = .invoke callback inv) ∨
        ∃ reply, m.control = .deliver reply) := by
  induction h with
  | initial state callback => exact .inr ⟨rfl, .inl ⟨callback, _, rfl⟩⟩
  | @step m _ ih =>
      rcases ih with ⟨rest, inv, hbottom⟩ | ⟨hnil, hcontrol⟩
      · rcases hstack : m.stack with _ | ⟨layer, stack⟩
        · rw [hstack, List.suffix_nil] at hbottom
          cases hbottom
        · rw [hstack, List.suffix_cons_iff] at hbottom
          rcases hbottom with hbottom | hbottom
          · -- the program itself makes a move
            obtain ⟨rfl, rfl⟩ := List.cons.inj hbottom
            cases moved_step client m with
            | performs command hm h =>
                rw [h.stack, hstack]
                exact .inl ⟨rest, inv, List.suffix_append _ _⟩
            | resumes frame reply stack hm hs h => cases hstack.symm.trans hs
            | enters rest' inv' reply hm hw hs hc =>
                rw [hs, hstack]
                exact .inl ⟨rest, inv, List.suffix_cons _ _⟩
            | asks command k k' inv' stack hw hs hs' hc =>
                obtain ⟨heq, rfl⟩ := List.cons.inj (hstack.symm.trans hs)
                rw [hs']
                exact .inl ⟨k', inv', List.suffix_rfl⟩
            | goesOn reply k k' inv' stack hw hs hs' hc =>
                obtain ⟨heq, rfl⟩ := List.cons.inj (hstack.symm.trans hs)
                rw [hs']
                exact .inl ⟨k', inv', List.suffix_rfl⟩
            | leaves reply k inv' stack hw hs hs' hc hr =>
                obtain ⟨heq, rfl⟩ := List.cons.inj (hstack.symm.trans hs)
                exact .inr ⟨hs', .inr ⟨reply, hc⟩⟩
            | rests reply hw hs hm hc =>
                rw [hs, hstack]
                exact .inl ⟨rest, inv, List.suffix_rfl⟩
          · exact .inl ⟨rest, inv, hbottom.trans (stack_step_cons client hstack)⟩
      · cases moved_step client m with
        | performs command hm h =>
            rcases hcontrol with ⟨callback, inv, hc⟩ | ⟨reply, hc⟩ <;> cases hm.symm.trans hc
        | resumes frame reply stack hm hs h => cases hnil.symm.trans hs
        | enters rest inv reply hm hw hs hc =>
            rw [hs, hnil]
            exact .inl ⟨rest, inv, List.suffix_rfl⟩
        | asks command k k' inv stack hw hs hs' hc => cases hnil.symm.trans hs
        | goesOn reply k k' inv stack hw hs hs' hc => cases hnil.symm.trans hs
        | leaves reply k inv stack hw hs hs' hc hr => cases hnil.symm.trans hs
        | rests reply hw hs hm hc => exact .inr ⟨hs.trans hnil, .inr ⟨reply, hc⟩⟩

/-- With one layer in progress, the program is the only callback, and no operation is. -/
theorem Reachable.outside {client : Client σ β κ} {m : Machine σ β κ} (h : Reachable client m)
    (hone : m.stack.length = 1) : ∃ rest inv, m.stack = [.callback rest inv] := by
  rcases h.bottom with ⟨rest, inv, hsuffix⟩ | ⟨hnil, -⟩
  · exact ⟨rest, inv, (hsuffix.eq_of_length hone.symm).symm⟩
  · rw [hnil] at hone
    cases hone

end Machine

/-! ## Routines -/

/-- What a callback of fixed behaviour does. -/
inductive Act (β : Type) where
  | command (command : Command β)
  | await (event : EventId)

/-- A callback of fixed behaviour: what it does, whatever it is told, and how it ends. -/
structure Routine (β : Type) where
  acts : List (Act β) := []
  outcome : Outcome β := .value none

/-- The client whose callbacks follow routines, and whose program keeps some handles. -/
def Client.ofRoutines (routines : β → Routine β) (kept : List Handle) :
    Client Unit β (Routine β) where
  start _ s callback _ := (s, routines callback)
  resume _ s rest _ :=
    match rest.acts with
    | [] => (s, .finish rest.outcome)
    | .command command :: acts => (s, .command command { rest with acts })
    | .await event :: acts => (s, .await event { rest with acts })
  report s _ := s
  keeps _ := kept
  holds _ := []

/-- A class of one level that declares methods, init hooks and a ready hook. -/
def Class.simple (methods : NameTable (Method β)) (initHooks : List β)
    (ready : Option (ReadyHook β)) : Class β where
  own :=
    { typeName := "Simple", handle := .null, ancestry := [], kind := .object, flags := {}
      template := none, cssName := none, properties := .empty, children := [], signals := .empty
      setters := .empty, methods, actions := [], initHooks, ready }
  inherited := []

end ObjectSystem
