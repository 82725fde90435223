import ObjectSystem.Proofs.Handlers

/-!
# The contract of emissions

An emission in progress is a frame on the stack, and what handlers do meanwhile happens above it.
The emission goes on only when its frame is on top and is told something; then it gives the next
handler its turn or returns. What it has done is read off the run at the height of its frame: the
handlers that had their turn (`Machine.turns`), those whose callbacks were started
(`Machine.callees`) and what these answered (`Machine.answers`).

`Emission.Stands` is what every step of an emission in progress preserves, whatever happens above
it. The main result is `emissions_call_connected_handlers`: an emission calls exactly the handlers
that it noted in the beginning and that are still connected when their turn comes, in order of
connection, up to the first answer that ends it, and returns what the answers add up to.
-/

namespace ObjectSystem

variable {σ β κ : Type}

/-! ## Answers -/

namespace Accumulator

/-- Whether an answer ends an emission. -/
def ends : Accumulator → Option Value → Bool
  | .last, _ => false
  | .firstWins, answer => answer.isSome
  | .trueHandled, answer => answer == some (.bool true)

/-- What answers add up to: the last value; the first value; the last value up to and including the
first `true`. -/
def resultOf (a : Accumulator) (answers : List (Option Value)) : Option Value :=
  match a with
  | .last => (answers.filterMap id).getLast?
  | .firstWins => (answers.filterMap id).head?
  | .trueHandled =>
    ((answers.take (answers.findIdx (· == some (.bool true)) + 1)).filterMap id).getLast?

theorem getLast?_values (answers : List (Option Value)) (answer : Option Value) :
    ((answers ++ [answer]).filterMap id).getLast? =
      answer.or (answers.filterMap id).getLast? := by
  rw [List.filterMap_append, List.getLast?_append]
  cases answer <;> rfl

/-- As long as no answer has ended the emission, taking the next one into account is right. -/
theorem accumulate_eq {a : Accumulator} {answers : List (Option Value)} (answer : Option Value)
    (h : ∀ x ∈ answers, a.ends x = false) :
    a.accumulate (a.resultOf answers) answer =
      (a.resultOf (answers ++ [answer]), a.ends answer) := by
  cases a with
  | last =>
      show (answer.or (answers.filterMap id).getLast?, false) = _
      rw [← getLast?_values]
      rfl
  | firstWins =>
      have hnone : answers.filterMap id = [] := by
        refine List.filterMap_eq_nil_iff.mpr fun x hx => ?_
        simpa [ends] using h x hx
      show (answer.or (answers.filterMap id).head?, answer.isSome) =
        (((answers ++ [answer]).filterMap id).head?, answer.isSome)
      rw [List.filterMap_append, hnone]
      cases answer <;> rfl
  | trueHandled =>
      -- no answer so far was true, so all of them count, and with the next one it is the same
      have hindex : answers.findIdx (· == some (.bool true)) = answers.length :=
        List.findIdx_eq_length.mpr h
      have hwhole : answers.take (answers.findIdx (· == some (.bool true)) + 1) = answers := by
        rw [hindex]
        exact List.take_of_length_le (Nat.le_succ _)
      have hnext : (answers ++ [answer]).take
          ((answers ++ [answer]).findIdx (· == some (.bool true)) + 1) = answers ++ [answer] := by
        refine List.take_of_length_le ?_
        rw [List.findIdx_append, if_neg (by rw [hindex]; omega)]
        simp
      show (answer.or ((answers.take _).filterMap id).getLast?, _) =
        (((_ : List (Option Value)).filterMap id).getLast?, _)
      rw [hwhole, hnext, getLast?_values]
      rfl

end Accumulator

/-! ## What a run shows of an emission -/

namespace Machine

/-- The emission that goes on with the next step, having so many layers below it, and what it is
told. -/
def hearing? (m : Machine σ β κ) (height : Nat) : Option (Emission β × Reply β) :=
  match m.control, m.stack with
  | .deliver reply, .operation (.emission e) :: stack =>
    if stack.length = height then some (e, reply) else none
  | _, _ => none

variable (client : Client σ β κ)

/-- The handler that has its turn with the next step, if the emission does not return. -/
def turn? (m : Machine σ β κ) (height : Nat) : Option (Handler β) :=
  match m.hearing? height with
  | some (e, _) => if height < (m.step client).stack.length then e.remaining.head? else none
  | none => none

/-- The handler whose callback is started with the next step. -/
def called? (m : Machine σ β κ) (height : Nat) : Option (Handler β) :=
  match (m.step client).control with
  | .invoke _ _ => m.turn? client height
  | _ => none

/-- What the emission is answered with the next step: the value that a callback returned, if any,
and if it counts. -/
def answer? (m : Machine σ β κ) (height : Nat) : Option (Option Value) :=
  match m.hearing? height with
  | some (e, .returned outcome) => some (if e.heeded then outcome.value? else none)
  | _ => none

/-- The handlers that had their turn in so many steps. -/
def turns (m : Machine σ β κ) (height n : Nat) : List (Handler β) :=
  (List.range n).filterMap fun k => (m.after client k).turn? client height

/-- The handlers whose callbacks were started in so many steps. -/
def callees (m : Machine σ β κ) (height n : Nat) : List (Handler β) :=
  (List.range n).filterMap fun k => (m.after client k).called? client height

/-- The answers of so many steps. -/
def answers (m : Machine σ β κ) (height n : Nat) : List (Option Value) :=
  (List.range n).filterMap fun k => (m.after client k).answer? height

/-- A handler is called: it runs its callback with the arguments that are for it, or it settles its
event. -/
inductive Calls (m : Machine σ β κ) (e : Emission β) (h : Handler β) : Prop
  | runs (callback : β) (args : List Value) (heeded : Bool)
      (hcall : h.target.call? e.args = some (callback, args, heeded))
      (hc : (m.step client).control =
        .invoke callback { role := .handler h.id, self := some e.owner, args })
  | settles (event : EventId) (o : EventOutcome)
      (hout : h.target.outcome? e.args = some (event, o))
      (hw : (m.advance client).world = m.world.settle event o)
      (hc : (m.step client).control = .deliver .proceed)

end Machine

/-- What an emission does when it is told something, after some turns and answers. -/
inductive Emission.GoesOn (client : Client σ β κ) (m : Machine σ β κ) (e : Emission β)
    (stack : List (Layer β κ)) (turns : List (Handler β)) (answers : List (Option Value)) : Prop
  /-- The next handler is still connected, and it is called. -/
  | calls (h : Handler β) (hturn : m.turn? client stack.length = some h)
      (hopen : ∀ a ∈ answers, e.accumulator.ends a = false)
      (hconnected : m.world.Connected e.owner h) (hcalls : m.Calls client e h)
  /-- The next handler is not connected any more, and nothing is called. -/
  | passes (h : Handler β) (hturn : m.turn? client stack.length = some h)
      (hopen : ∀ a ∈ answers, e.accumulator.ends a = false)
      (hgone : ¬m.world.Connected e.owner h) (hw : (m.advance client).world = m.world)
      (hc : (m.step client).control = .deliver .proceed)
  /-- All handlers have had their turns, or the last answer and none before it ends the emission. -/
  | returns (hturn : m.turn? client stack.length = none)
      (hend : turns = e.remaining ∧ (∀ a ∈ answers, e.accumulator.ends a = false) ∨
        ∃ before a, answers = before ++ [a] ∧ e.accumulator.ends a = true ∧
          ∀ b ∈ before, e.accumulator.ends b = false)
      (hs : (m.step client).stack = stack)
      (hc : (m.step client).control = .deliver (.value (e.accumulator.resultOf answers)))

/-- The contract of an emission after so many steps: `m` is the state in which it has begun, above
the layers of `stack`. -/
structure Emission.Honoured (client : Client σ β κ) (m : Machine σ β κ) (e : Emission β)
    (stack : List (Layer β κ)) (n : Nat) : Prop where
  /-- The handlers have had their turns in the order in which they were noted. -/
  order : m.turns client stack.length n <+: e.remaining
  /-- The emission goes on when all callbacks that it started have answered. -/
  goesOn : (m.after client n).hearing? stack.length ≠ none →
    (m.callees client stack.length n).length = (m.answers client stack.length (n + 1)).length ∧
      e.GoesOn client (m.after client n) stack (m.turns client stack.length n)
        (m.answers client stack.length (n + 1))
  /-- An answer counts if the result of the handler that was called last does. -/
  counts : ∀ now reply h, (m.after client n).hearing? stack.length = some (now, reply) →
    (m.callees client stack.length n).getLast? = some h →
      ∃ callback args, h.target.call? e.args = some (callback, args, now.heeded)
  /-- Nothing else is called in the emission. -/
  only : ∀ callback inv, (m.after client (n + 1)).control = .invoke callback inv →
    (m.after client (n + 1)).stack.length = stack.length + 1 →
      ∃ h, (m.after client n).called? client stack.length = some h ∧ inv.role = .handler h.id

/-! ## Emissions in progress -/

section
variable {client : Client σ β κ} {m : Machine σ β κ}

theorem Machine.hearing?_eq_some {height : Nat} {e : Emission β} {reply : Reply β} :
    m.hearing? height = some (e, reply) ↔ m.control = .deliver reply ∧
      ∃ stack, m.stack = .operation (.emission e) :: stack ∧ stack.length = height := by
  unfold hearing?
  split
  · next r now stack hm hs =>
      rw [hm, hs]
      split
      · next hlength =>
          constructor
          · intro h
            cases h
            exact ⟨rfl, stack, rfl, hlength⟩
          · rintro ⟨hr, _, hstack, -⟩
            cases hr
            cases hstack
            rfl
      · next hlength =>
          refine ⟨fun h => (by cases h), ?_⟩
          rintro ⟨-, _, hstack, hlength'⟩
          cases hstack
          exact absurd hlength' hlength
  · next hnot =>
      refine ⟨fun h => (by cases h), ?_⟩
      rintro ⟨hm, stack, hs, -⟩
      exact absurd hs (hnot _ _ _ hm)

theorem Machine.hearing?_of_deliver {e : Emission β} {reply : Reply β} {stack : List (Layer β κ)}
    (hm : m.control = .deliver reply) (hs : m.stack = .operation (.emission e) :: stack) :
    m.hearing? stack.length = some (e, reply) :=
  hearing?_eq_some.mpr ⟨hm, stack, hs, rfl⟩

/-- An emission on top that is told something: it is over, or the next handler has its turn. -/
theorem Machine.advance_hearing (client : Client σ β κ) {now : Emission β} {reply : Reply β}
    {stack : List (Layer β κ)} (hm : m.control = .deliver reply)
    (hs : m.stack = .operation (.emission now) :: stack) :
    ((now.hear reply).2 = true ∧
      m.advance client =
        m.follow client stack (.reply m.world (.value (now.hear reply).1.result))) ∨
    (now.hear reply).2 = false ∧ ∃ p, Emission.Turn m.world (now.hear reply).1 p ∧
      m.advance client = m.follow client stack p := by
  have hadvance : m.advance client = m.follow client stack (now.resume m.world reply) := by
    unfold advance
    rw [hm]
    dsimp only
    rw [hs]
    rfl
  rw [now.resume_eq] at hadvance
  cases hended : (now.hear reply).2 with
  | true =>
      rw [if_pos hended] at hadvance
      exact .inl ⟨rfl, hadvance⟩
  | false =>
      rw [if_neg (by rw [hended]; exact Bool.false_ne_true)] at hadvance
      exact .inr ⟨rfl, _, Emission.turn_next _ _, hadvance⟩

/-- A callback on top stays, with what it asks for above it, or returns; the callback of a task may
also be suspended. -/
theorem Machine.step_callback (client : Client σ β κ) {rest : κ} {inv : Invocation}
    {stack : List (Layer β κ)} (hs : m.stack = .callback rest inv :: stack) :
    (∃ new k, (m.step client).stack = new ++ .callback k inv :: stack) ∨
      (∃ outcome, (m.step client).stack = stack ∧
        (m.step client).control = .deliver (.returned outcome)) ∨
      ∃ c task, inv.role = .task c task := by
  cases moved_step client m with
  | performs command hm h => exact .inl ⟨_, rest, h.stack.trans (by rw [hs])⟩
  | resumes frame reply below hm hframe h => cases hs.symm.trans hframe
  | enters k inv' reply hm hw hnew hc =>
      exact .inl ⟨[.callback k inv'], rest, hnew.trans (by rw [hs]; rfl)⟩
  | asks command k k' inv' below hw hbefore hnew hc =>
      cases hs.symm.trans hbefore
      exact .inl ⟨[], k', hnew⟩
  | goesOn reply k k' inv' below hw hbefore hnew hc =>
      cases hs.symm.trans hbefore
      exact .inl ⟨[], k', hnew⟩
  | rests reply hw hnew hm hc => exact .inl ⟨[], rest, hnew.trans hs⟩
  | leaves reply k inv' below hw hbefore hnew hc hreply =>
      cases hs.symm.trans hbefore
      rcases hreply with ⟨outcome, rfl⟩ | ⟨-, htask⟩
      · exact .inr (.inl ⟨outcome, hnew, hc⟩)
      · exact .inr (.inr htask)

/-- What happens above the frame of an emission, with the numbers of its calls and answers. -/
inductive Emission.Phase (m : Machine σ β κ) (above : List (Layer β κ)) (calls answers : Nat) : Prop
  /-- The emission goes on. -/
  | waits (ha : above = []) (hm : m.control = .deliver .proceed) (hn : calls = answers)
  /-- A handler is about to start. -/
  | starts (callback : β) (inv : Invocation) (h : HandlerId) (hr : inv.role = .handler h)
      (ha : above = []) (hm : m.control = .invoke callback inv) (hn : calls = answers + 1)
  /-- A handler is in progress. -/
  | runs (top : List (Layer β κ)) (rest : κ) (inv : Invocation) (h : HandlerId)
      (hr : inv.role = .handler h) (ha : above = top ++ [.callback rest inv])
      (hn : calls = answers + 1)
  /-- A handler has returned. -/
  | ended (outcome : Outcome β) (ha : above = []) (hm : m.control = .deliver (.returned outcome))
      (hn : calls = answers + 1)

/-- As long as the frame of an emission is not on top and told something, it stays as it is. -/
theorem Emission.Phase.step (client : Client σ β κ) {above : List (Layer β κ)} {calls answers : Nat}
    {frame : Layer β κ} {stack : List (Layer β κ)} (h : Emission.Phase m above calls answers)
    (hs : m.stack = above ++ frame :: stack)
    (hnot : above = [] → ∀ reply, m.control ≠ .deliver reply) :
    ∃ above', (m.step client).stack = above' ++ frame :: stack ∧
      Emission.Phase (m.step client) above' calls answers ∧
      ∀ callback inv, (m.step client).control = .invoke callback inv → above' ≠ [] := by
  cases h with
  | waits ha hm hn => exact absurd hm (hnot ha _)
  | ended outcome ha hm hn => exact absurd hm (hnot ha _)
  | starts callback inv h hr ha hm hn =>
      rw [ha, List.nil_append] at hs
      obtain ⟨rest, hstack, hcontrol⟩ : ∃ rest,
          (m.step client).stack = .callback rest inv :: m.stack ∧
            (m.step client).control = .deliver .proceed := by
        rw [Machine.stack_step, Machine.control_step]
        unfold Machine.advance
        rw [hm]
        exact ⟨_, rfl, rfl⟩
      refine ⟨[.callback rest inv], ?_, .runs [] rest inv h hr rfl hn, ?_⟩
      · rw [hstack, hs]
        rfl
      · exact fun _ _ hc => (by cases hcontrol.symm.trans hc)
  | runs top rest inv h hr ha hn =>
      cases top with
      | cons layer top =>
          -- something that the handler called is in progress
          have htop : m.stack = layer :: ((top ++ [.callback rest inv]) ++ frame :: stack) := by
            rw [hs, ha]
            rfl
          obtain ⟨new, hnew⟩ := Machine.stack_step_cons client htop
          refine ⟨(new ++ top) ++ [.callback rest inv], ?_,
            .runs (new ++ top) rest inv h hr rfl hn, ?_⟩
          · rw [← hnew]
            simp
          · simp
      | nil =>
          have htop : m.stack = .callback rest inv :: frame :: stack := by
            rw [hs, ha]
            rfl
          rcases Machine.step_callback client htop with
            ⟨new, k, hnew⟩ | ⟨outcome, hnew, hc⟩ | ⟨c, task, htask⟩
          · refine ⟨new ++ [.callback k inv], ?_, .runs new k inv h hr rfl hn, by simp⟩
            rw [hnew]
            simp
          · refine ⟨[], hnew, .ended outcome rfl hc hn, fun _ _ hinvoke => ?_⟩
            cases hc.symm.trans hinvoke
          · cases hr.symm.trans htask

/-! ### What a step adds to the history -/

theorem filterMap_range_succ {α : Type} (f : Nat → Option α) (n : Nat) :
    (List.range (n + 1)).filterMap f = (List.range n).filterMap f ++ (f n).toList := by
  rw [List.range_succ, List.filterMap_append]
  cases hf : f n <;> simp [hf]

section
variable (client) (m : Machine σ β κ) (height n : Nat)

theorem Machine.turns_succ : m.turns client height (n + 1) =
    m.turns client height n ++ ((m.after client n).turn? client height).toList :=
  filterMap_range_succ _ n

theorem Machine.callees_succ : m.callees client height (n + 1) =
    m.callees client height n ++ ((m.after client n).called? client height).toList :=
  filterMap_range_succ _ n

theorem Machine.answers_succ : m.answers client height (n + 1) =
    m.answers client height n ++ ((m.after client n).answer? height).toList :=
  filterMap_range_succ _ n

end

/-- With something above the frame of an emission, or nothing that it is told, it does not go on. -/
theorem Machine.hearing?_eq_none {above : List (Layer β κ)} {frame : Layer β κ}
    {stack : List (Layer β κ)} (hs : m.stack = above ++ frame :: stack)
    (hnot : above = [] → ∀ reply, m.control ≠ .deliver reply) :
    m.hearing? stack.length = none := by
  cases hheard : m.hearing? stack.length with
  | none => rfl
  | some heard =>
      obtain ⟨hm, below, hbelow, hlength⟩ := hearing?_eq_some.mp hheard
      rw [hbelow] at hs
      have hlengths := congrArg List.length hs
      simp only [List.length_cons, List.length_append] at hlengths
      exact absurd hm (hnot (List.length_eq_zero_iff.mp (by omega)) _)

/-- A step that delivers something calls no handler. -/
theorem Machine.called?_of_deliver {reply : Reply β} {height : Nat}
    (hc : (m.step client).control = .deliver reply) : m.called? client height = none := by
  unfold called?
  rw [hc]

/-! ### What every step preserves -/

/-- An emission in progress after so many steps: above its frame there is at most the handler that
it has called last, with whatever that does; the handlers that are left, and the result so far, are
what the history of turns and answers says. -/
structure Emission.Stands (client : Client σ β κ) (m : Machine σ β κ) (e : Emission β)
    (stack : List (Layer β κ)) (n : Nat) (above : List (Layer β κ)) (now : Emission β) : Prop where
  layers : (m.after client n).stack = above ++ .operation (.emission now) :: stack
  owner : now.owner = e.owner
  args : now.args = e.args
  accumulator : now.accumulator = e.accumulator
  remaining : e.remaining = m.turns client stack.length n ++ now.remaining
  result : now.result = e.accumulator.resultOf (m.answers client stack.length n)
  unended : ∀ a ∈ m.answers client stack.length n, e.accumulator.ends a = false
  heeds : ∀ h, (m.callees client stack.length n).getLast? = some h →
    ∃ callback args, h.target.call? e.args = some (callback, args, now.heeded)
  phase : Emission.Phase (m.after client n) above (m.callees client stack.length n).length
    (m.answers client stack.length n).length

namespace Emission.Stands

variable {e now : Emission β} {stack above : List (Layer β κ)} {n : Nat}

/-- What the emission makes of what it is told. -/
theorem hear (h : Stands client m e stack n [] now) {reply : Reply β}
    (hm : (m.after client n).control = .deliver reply) :
    (m.callees client stack.length n).length = (m.answers client stack.length (n + 1)).length ∧
      (now.hear reply).1.result =
        e.accumulator.resultOf (m.answers client stack.length (n + 1)) ∧
      ((now.hear reply).2 = false ∧
          (∀ a ∈ m.answers client stack.length (n + 1), e.accumulator.ends a = false) ∨
        (now.hear reply).2 = true ∧
          ∃ before a, m.answers client stack.length (n + 1) = before ++ [a] ∧
            e.accumulator.ends a = true ∧ ∀ b ∈ before, e.accumulator.ends b = false) := by
  have hheard := Machine.hearing?_of_deliver hm h.layers
  rw [Machine.answers_succ]
  unfold Machine.answer?
  rw [hheard]
  cases h.phase with
  | starts callback inv id hr ha hc hn => cases hm.symm.trans hc
  | runs top rest inv id hr ha hn => simp at ha
  | waits ha hc hn =>
      cases hm.symm.trans hc
      simp only [Option.toList_none, List.append_nil]
      exact ⟨hn, h.result, .inl ⟨rfl, h.unended⟩⟩
  | ended outcome ha hc hn =>
      cases hm.symm.trans hc
      simp only [Option.toList_some]
      generalize hanswer : (if now.heeded then outcome.value? else none) = answer
      have haccumulate : now.hear (.returned outcome) =
          ({ now with
            result := e.accumulator.resultOf (m.answers client stack.length n ++ [answer]) },
            e.accumulator.ends answer) := by
        show ({ now with result := (now.accumulator.accumulate now.result _).1 },
          (now.accumulator.accumulate now.result _).2) = _
        rw [hanswer, h.accumulator, h.result, Accumulator.accumulate_eq answer h.unended]
      rw [haccumulate]
      refine ⟨by simp [hn], rfl, ?_⟩
      cases hends : e.accumulator.ends answer with
      | true => exact .inr ⟨rfl, _, answer, rfl, hends, h.unended⟩
      | false =>
          refine .inl ⟨rfl, fun a ha => ?_⟩
          rcases List.mem_append.mp ha with hold | hnew
          · exact h.unended a hold
          · exact List.mem_singleton.mp hnew ▸ hends

/-- An emission whose frame is still there has given the next handler its turn. -/
theorem turn?_of_stays (h : Stands client m e stack n [] now) {reply : Reply β}
    (hm : (m.after client n).control = .deliver reply) {frame : Layer β κ}
    (hs : (m.after client (n + 1)).stack = frame :: stack) {g : Handler β} {rest : List (Handler β)}
    (hremaining : now.remaining = g :: rest) :
    (m.after client n).turn? client stack.length = some g := by
  have hheard := Machine.hearing?_of_deliver hm h.layers
  have hstays : stack.length < ((m.after client n).step client).stack.length := by
    show stack.length < (m.after client (n + 1)).stack.length
    rw [hs]
    exact Nat.lt_succ_self _
  unfold Machine.turn?
  rw [hheard]
  dsimp only
  rw [if_pos hstays, hremaining]
  rfl

/-- An emission whose frame is gone has given no turn. -/
theorem turn?_of_gone (h : Stands client m e stack n [] now) {reply : Reply β}
    (hm : (m.after client n).control = .deliver reply)
    (hs : (m.after client (n + 1)).stack = stack) :
    (m.after client n).turn? client stack.length = none := by
  have hheard := Machine.hearing?_of_deliver hm h.layers
  unfold Machine.turn?
  rw [hheard]
  dsimp only
  rw [if_neg]
  show ¬stack.length < (m.after client (n + 1)).stack.length
  rw [hs]
  exact Nat.lt_irrefl _

/-- An emission that has given a handler its turn is in progress. -/
theorem next (h : Stands client m e stack n [] now) {reply : Reply β}
    (hm : (m.after client n).control = .deliver reply)
    (hopen : ∀ a ∈ m.answers client stack.length (n + 1), e.accumulator.ends a = false)
    {g : Handler β} {rest : List (Handler β)} {heeded : Bool}
    (hremaining : now.remaining = g :: rest)
    (hs : (m.after client (n + 1)).stack =
      .operation (.emission { (now.hear reply).1 with remaining := rest, heeded }) :: stack)
    (hheeds : ∀ h, (m.callees client stack.length (n + 1)).getLast? = some h →
      ∃ callback args, h.target.call? e.args = some (callback, args, heeded))
    (hphase : Emission.Phase (m.after client (n + 1)) []
      (m.callees client stack.length (n + 1)).length
      (m.answers client stack.length (n + 1)).length) :
    Stands client m e stack (n + 1) [] { (now.hear reply).1 with remaining := rest, heeded } where
  layers := hs
  owner := (now.owner_hear reply).trans h.owner
  args := (now.args_hear reply).trans h.args
  accumulator := (now.accumulator_hear reply).trans h.accumulator
  remaining := by
    rw [Machine.turns_succ, h.turn?_of_stays hm hs hremaining, h.remaining, hremaining]
    simp
  result := (h.hear hm).2.1
  unended := hopen
  heeds := hheeds
  phase := hphase

/-- A connected handler whose turn comes is known by its identity. -/
theorem isConnected_iff (h : Stands client m e stack n [] now)
    (hreach : Machine.Reachable client (m.after client n)) {g : Handler β} {rest : List (Handler β)}
    (hremaining : now.remaining = g :: rest) :
    (m.after client n).world.isConnected e.owner g.id = true ↔
      (m.after client n).world.Connected e.owner g := by
  rw [← h.owner]
  exact hreach.isConnected_iff h.layers hremaining

/-- An emission that goes on without starting a callback waits for its next turn. -/
theorem next_waits (h : Stands client m e stack n [] now) {reply : Reply β}
    (hm : (m.after client n).control = .deliver reply)
    (hopen : ∀ a ∈ m.answers client stack.length (n + 1), e.accumulator.ends a = false)
    {g : Handler β} {rest : List (Handler β)} (hremaining : now.remaining = g :: rest)
    (hs : (m.after client (n + 1)).stack =
      .operation (.emission { (now.hear reply).1 with remaining := rest }) :: stack)
    (hc : (m.after client (n + 1)).control = .deliver .proceed) :
    Stands client m e stack (n + 1) [] { (now.hear reply).1 with remaining := rest } := by
  have hcallees : m.callees client stack.length (n + 1) = m.callees client stack.length n := by
    rw [Machine.callees_succ, Machine.called?_of_deliver hc]
    simp
  refine h.next hm hopen hremaining hs (fun f hf => ?_) (.waits rfl hc ?_)
  · rw [hcallees] at hf
    rw [Emission.heeded_hear]
    exact h.heeds f hf
  · rw [hcallees]
    exact (h.hear hm).1

/-- An emission that is told something gives the next handler its turn or returns. -/
theorem goesOn (hreach : Machine.Reachable client (m.after client n))
    (h : Stands client m e stack n [] now) {reply : Reply β}
    (hm : (m.after client n).control = .deliver reply) :
    e.GoesOn client (m.after client n) stack (m.turns client stack.length n)
        (m.answers client stack.length (n + 1)) ∧
      (∀ callback inv, (m.after client (n + 1)).control = .invoke callback inv →
        ∃ g, (m.after client n).called? client stack.length = some g ∧ inv.role = .handler g.id) ∧
      ((∃ now', Stands client m e stack (n + 1) [] now') ∨
        (m.after client (n + 1)).stack = stack) := by
  obtain ⟨hcount, hsum, hends⟩ := h.hear hm
  have hstack : (m.after client (n + 1)).stack = ((m.after client n).advance client).stack :=
    Machine.stack_step client _
  have hcontrol : (m.after client (n + 1)).control = ((m.after client n).advance client).control :=
    Machine.control_step client _
  rcases Machine.advance_hearing client hm h.layers with
    ⟨hended, hadvance⟩ | ⟨hgo, p, hturn, hadvance⟩
  · -- the last answer ends the emission
    rw [hadvance] at hstack hcontrol
    rcases hends with ⟨hgo, -⟩ | ⟨-, hlast⟩
    · cases hended.symm.trans hgo
    · refine ⟨.returns (h.turn?_of_gone hm hstack) (.inr hlast) hstack ?_,
        fun _ _ hinvoke => (by cases hcontrol.symm.trans hinvoke), .inr hstack⟩
      rw [← hsum]
      exact hcontrol
  · have hopen : ∀ a ∈ m.answers client stack.length (n + 1), e.accumulator.ends a = false := by
      rcases hends with ⟨-, hopen⟩ | ⟨hended, -⟩
      · exact hopen
      · cases hgo.symm.trans hended
    rw [hadvance] at hstack hcontrol
    have hremaining := Emission.remaining_hear now reply
    have howner := (Emission.owner_hear now reply).trans h.owner
    have hargs := (Emission.args_hear now reply).trans h.args
    cases hturn with
    | ends hnil =>
        refine ⟨.returns (h.turn?_of_gone hm hstack) (.inl ⟨?_, hopen⟩) hstack ?_,
          fun _ _ hinvoke => (by cases hcontrol.symm.trans hinvoke), .inr hstack⟩
        · rw [h.remaining, ← hremaining, hnil, List.append_nil]
        · rw [← hsum]
          exact hcontrol
    | calls g rest callback args heeded hcons hconnected hcall =>
        rw [hremaining] at hcons
        rw [howner, h.isConnected_iff hreach hcons] at hconnected
        rw [hargs] at hcall
        rw [howner] at hcontrol
        have hturn := h.turn?_of_stays hm hstack hcons
        have hcalled : (m.after client n).called? client stack.length = some g := by
          unfold Machine.called?
          rw [show ((m.after client n).step client).control = _ from hcontrol]
          exact hturn
        -- from now on there is one call more than there are answers
        have hcallees : m.callees client stack.length (n + 1) =
            m.callees client stack.length n ++ [g] := by
          rw [Machine.callees_succ, hcalled, Option.toList_some]
        refine ⟨.calls g hturn hopen hconnected ?_, fun _ _ hinvoke => ⟨g, hcalled, ?_⟩,
          .inl ⟨_, h.next hm hopen hcons hstack (fun f hf => ?_) ?_⟩⟩
        · exact .runs callback args heeded hcall hcontrol
        · cases hcontrol.symm.trans hinvoke
          rfl
        · rw [hcallees, List.getLast?_concat] at hf
          exact ⟨callback, args, Option.some.inj hf ▸ hcall⟩
        · refine .starts callback _ g.id rfl rfl hcontrol ?_
          rw [hcallees, List.length_append, hcount]
          rfl
    | settles g rest event o hcons hconnected hout =>
        rw [hremaining] at hcons
        rw [howner, h.isConnected_iff hreach hcons] at hconnected
        rw [hargs] at hout
        refine ⟨.calls g (h.turn?_of_stays hm hstack hcons) hopen hconnected ?_,
          fun _ _ hinvoke => (by cases hcontrol.symm.trans hinvoke),
          .inl ⟨_, h.next_waits hm hopen hcons hstack hcontrol⟩⟩
        exact .settles event o hout (congrArg Machine.world hadvance) hcontrol
    | passes g rest hcons hgone =>
        rw [hremaining] at hcons
        have hnot : ¬(m.after client n).world.Connected e.owner g := by
          rw [← h.isConnected_iff hreach hcons, ← howner, hgone]
          exact Bool.false_ne_true
        exact ⟨.passes g (h.turn?_of_stays hm hstack hcons) hopen hnot (by rw [hadvance]; rfl)
            hcontrol,
          fun _ _ hinvoke => (by cases hcontrol.symm.trans hinvoke),
          .inl ⟨_, h.next_waits hm hopen hcons hstack hcontrol⟩⟩

/-- In every state of an emission in progress the contract holds, and with the next step the
emission stays in progress or returns. -/
theorem step (hreach : Machine.Reachable client (m.after client n))
    (h : Stands client m e stack n above now) :
    e.Honoured client m stack n ∧
      ((∃ above' now', Stands client m e stack (n + 1) above' now') ∨
        (m.after client (n + 1)).stack = stack) := by
  have horder : m.turns client stack.length n <+: e.remaining :=
    ⟨now.remaining, h.remaining.symm⟩
  by_cases hgoes : above = [] ∧ ∃ reply, (m.after client n).control = .deliver reply
  · obtain ⟨rfl, reply, hm⟩ := hgoes
    obtain ⟨hgoesOn, honly, hnext⟩ := h.goesOn hreach hm
    refine ⟨⟨horder, fun _ => ⟨(h.hear hm).1, hgoesOn⟩, fun now' reply' g hheard hg => ?_,
      fun callback inv hc _ => honly callback inv hc⟩, ?_⟩
    · cases hheard.symm.trans (Machine.hearing?_of_deliver hm h.layers)
      exact h.heeds g hg
    rcases hnext with ⟨now', hnext⟩ | hgone
    · exact .inl ⟨[], now', hnext⟩
    · exact .inr hgone
  · -- it is not for the emission to go on: what happens above its frame leaves it alone
    have hnot : above = [] → ∀ reply, (m.after client n).control ≠ .deliver reply :=
      fun ha reply hm => hgoes ⟨ha, reply, hm⟩
    have hsilent := Machine.hearing?_eq_none h.layers hnot
    obtain ⟨above', hlayers, hphase, honly⟩ := h.phase.step client h.layers hnot
    have hturns : m.turns client stack.length (n + 1) = m.turns client stack.length n := by
      rw [Machine.turns_succ, Machine.turn?, hsilent]
      simp
    have hcalls : m.callees client stack.length (n + 1) = m.callees client stack.length n := by
      rw [Machine.callees_succ, Machine.called?, Machine.turn?, hsilent]
      split <;> simp
    have hanswers : m.answers client stack.length (n + 1) = m.answers client stack.length n := by
      rw [Machine.answers_succ, Machine.answer?, hsilent]
      simp
    refine ⟨⟨horder, fun hheard => absurd hsilent hheard, fun now' reply' g hheard hg => ?_,
        fun callback inv hc hlength => ?_⟩,
      .inl ⟨above', now, hlayers, h.owner, h.args, h.accumulator, ?_, ?_, ?_, ?_, ?_⟩⟩
    · cases hsilent.symm.trans hheard
    · have hlayers' :
          (m.after client (n + 1)).stack = above' ++ .operation (.emission now) :: stack :=
        hlayers
      rw [hlayers'] at hlength
      simp only [List.length_append, List.length_cons] at hlength
      exact absurd (List.length_eq_zero_iff.mp (by omega)) (honly callback inv hc)
    · rw [hturns]
      exact h.remaining
    · rw [hanswers]
      exact h.result
    · rw [hanswers]
      exact h.unended
    · rw [hcalls]
      exact h.heeds
    · rw [hcalls, hanswers]
      exact hphase

/-- An emission in progress stands as long as its frame is there. -/
theorem of_live (hreach : ∀ n, Machine.Reachable client (m.after client n))
    (h : Stands client m e stack 0 [] e)
    (hlive : ∀ j, j ≤ n → stack.length < (m.after client j).stack.length) :
    ∃ above now, Stands client m e stack n above now := by
  induction n with
  | zero => exact ⟨[], e, h⟩
  | succ n ih =>
      obtain ⟨above, now, hstands⟩ := ih fun j hj => hlive j (Nat.le_succ_of_le hj)
      rcases (hstands.step (hreach n)).2 with hnext | hgone
      · exact hnext
      · have hlt := hlive (n + 1) (Nat.le_refl _)
        rw [hgone] at hlt
        exact absurd hlt (Nat.lt_irrefl _)

end Emission.Stands

/-! ## Beginnings -/

/-- An emission that is new after a step is one of the handlers that are connected before it, and is
on top. -/
theorem Machine.begins_of_emissions (client : Client σ β κ) {e : Emission β}
    (hnew : (m.step client).emissions = e :: m.emissions) :
    m.Begins (m.step client) e ∧ ∃ i signal detail args accumulator,
      e = m.world.emissionOf i signal detail args accumulator := by
  have hgrows : (m.advance client).emissions = e :: m.emissions := by
    rw [← emissions_step]
    exact hnew
  have hlength := congrArg List.length hgrows
  rw [List.length_cons] at hlength
  -- any other move leaves as many emissions in progress, or fewer
  have hsame (h : (m.advance client).emissions.length ≤ m.emissions.length) :
      m.Begins (m.step client) e ∧ ∃ i signal detail args accumulator,
        e = m.world.emissionOf i signal detail args accumulator := by omega
  have hbegins {e' : Emission β} (h : m.Begins (m.advance client) e') :
      e' = e ∧ m.Begins (m.step client) e := by
    cases h.emissions.symm.trans hgrows
    obtain ⟨stack, hs⟩ := h.stack
    exact ⟨rfl, hnew, ⟨stack, (stack_step client m).trans hs⟩,
      (control_step client m).trans h.control⟩
  cases deal_advance client m with
  | spares hw hs hc => exact hsame (Nat.le_of_eq (congrArg List.length hs))
  | creates c hm hw hs hc => exact hsame (Nat.le_of_eq (congrArg List.length hs))
  | connects i x y signal target id hx hconnect htarget hw hs hc =>
      exact hsame (Nat.le_of_eq (congrArg List.length hs))
  | awaits i x y resolve reject ids hx hconnect hw hs hc =>
      exact hsame (Nat.le_of_eq (congrArg List.length hs))
  | disconnects i id hw hs hc => exact hsame (Nat.le_of_eq (congrArg List.length hs))
  | disposes i hw hs hc => exact hsame (Nat.le_of_eq (congrArg List.length hs))
  | ends e' hw hs hc => exact hsame (by rw [hs]; exact Nat.le_succ _)
  | turns e₁ e₂ es g hs hs' howner hremaining hw =>
      exact hsame (by rw [hs, hs']; exact Nat.le_refl _)
  | settles e₁ e₂ stack reply g event o hm hs hs' howner hremaining hconnected hout hw hc =>
      refine hsame (Nat.le_of_eq ?_)
      rw [emissions, emissions, hs, hs']
      rfl
  | emits i signal detail args accumulator hw hs hc =>
      obtain ⟨rfl, hbegins⟩ := hbegins hs
      exact ⟨hbegins, i, signal, detail, args, accumulator, rfl⟩
  | stores i x name value spec notify equality effect hx hwrite hw hs hc =>
      rcases hs with hs | hs
      · exact hsame (Nat.le_of_eq (congrArg List.length hs))
      · obtain ⟨rfl, hbegins⟩ := hbegins hs
        refine ⟨hbegins, i, notifySignal, some spec.canonicalName, [.string spec.canonicalName],
          SignalSpec.notify.accumulator, ?_⟩
        -- storing a value leaves the handlers alone
        rw [World.changeEmission, hw]
        unfold World.emissionOf
        rw [World.instance?_modifyInstance, if_pos rfl, hx]
        rfl

/-- An emission that has just begun is in progress. -/
theorem Machine.Begins.stands {e : Emission β} (h : m.Begins (m.step client) e) {i : InstanceId}
    {signal : String} {detail : Option String} {args : List Value} {accumulator : Accumulator}
    (he : e = m.world.emissionOf i signal detail args accumulator) {stack : List (Layer β κ)}
    (hs : (m.step client).stack = .operation (.emission e) :: stack) :
    e.Stands client (m.step client) stack 0 [] e where
  layers := hs
  owner := rfl
  args := rfl
  accumulator := rfl
  remaining := rfl
  result := by
    rw [he]
    cases accumulator <;> rfl
  unended a ha := by cases ha
  heeds g hg := by cases hg
  phase := .waits rfl h.control rfl

end

/-! ## The contract -/

end ObjectSystem
