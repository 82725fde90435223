import Mathlib.Data.Nat.Find
import ObjectSystem.Proofs.Emissions
import ObjectSystem.Proofs.Pending

/-!
# How operations come to an end

An operation of the library that runs callbacks ends when these have returned; whether a callback
returns is up to the client. `Machine.Concludes` says just this of what is above some layers: it
comes to an end, with a reply of a certain kind, unless one of the callbacks that are started
meanwhile hangs. A write, an emission or an effect is followed by these rules down to the layers
below, one rule for each way to go on: a callback returns (`Concludes.of_callback`), an emission has
given all handlers their turns (`Concludes.of_emission`), an operation replies
(`Concludes.of_reply`).
-/

namespace ObjectSystem

variable {σ β κ : Type}

namespace Machine

/-- A callback is about to start and never returns: from then on there is more on the stack. -/
structure Hangs (client : Client σ β κ) (m : Machine σ β κ) (callback : β) (inv : Invocation) :
    Prop where
  control : m.control = .invoke callback inv
  busy : ∀ j, 0 < j → m.stack.length < (m.after client j).stack.length

/-- What is above some layers comes to its end and replies, or one of the callbacks that it starts
hangs. -/
inductive Concludes (client : Client σ β κ) (m : Machine σ β κ) (base : List (Layer β κ))
    (calls : Invocation → Prop) (replies : Reply β → Prop) : Prop
  | ends (n : Nat) (reply : Reply β) (hreply : replies reply)
      (busy : ∀ j, j < n → base.length < (m.after client j).stack.length)
      (hs : (m.after client n).stack = base) (hc : (m.after client n).control = .deliver reply)
  | hangs (n : Nat) (callback : β) (inv : Invocation) (hcall : calls inv)
      (busy : ∀ j, j ≤ n → base.length < (m.after client j).stack.length)
      (h : (m.after client n).Hangs client callback inv)

section
variable {client : Client σ β κ} {m : Machine σ β κ} {base : List (Layer β κ)}
  {calls : Invocation → Prop} {replies : Reply β → Prop}

/-- There is more on a stack until some state, and from there on. -/
theorem busy_add {k n : Nat} (hfirst : ∀ j, j < k → base.length < (m.after client j).stack.length)
    (hlater : ∀ j, j < n → base.length < ((m.after client k).after client j).stack.length) (j : Nat)
    (hj : j < k + n) : base.length < (m.after client j).stack.length := by
  rcases Nat.lt_or_ge j k with hjk | hkj
  · exact hfirst j hjk
  · obtain ⟨i, rfl⟩ := Nat.exists_eq_add_of_le hkj
    rw [after_add]
    exact hlater i (by omega)

namespace Concludes

/-- What concludes later concludes now, if there is more on the stack until then. -/
theorem of_after {k : Nat} (hbusy : ∀ j, j < k → base.length < (m.after client j).stack.length)
    (h : (m.after client k).Concludes client base calls replies) :
    m.Concludes client base calls replies := by
  cases h with
  | ends n reply hreply hrest hs hc =>
      refine .ends (k + n) reply hreply (busy_add hbusy hrest) ?_ ?_ <;> rwa [after_add]
  | hangs n callback inv hcall hrest hhangs =>
      refine .hangs (k + n) callback inv hcall (fun j hj => ?_) (by rwa [after_add])
      exact busy_add (n := n + 1) hbusy (fun i hi => hrest i (Nat.le_of_lt_succ hi)) j
        (Nat.lt_succ_of_le hj)

theorem of_step (hbusy : base.length < m.stack.length)
    (h : (m.step client).Concludes client base calls replies) :
    m.Concludes client base calls replies := by
  refine of_after (k := 1) (fun j hj => ?_) h
  obtain rfl : j = 0 := by omega
  exact hbusy

/-- An operation on top that replies is the end of it. -/
theorem of_reply {told reply : Reply β} {frame : Frame β} {w : World β}
    (hm : m.control = .deliver told) (hs : m.stack = .operation frame :: base)
    (hframe : frame.resume m.world told = .reply w reply) (hreply : replies reply) :
    m.Concludes client base calls replies := by
  have hf := follows_resume client hm hs
  rw [hframe] at hf
  refine .of_step ?_ (.ends 0 reply hreply (fun j hj => absurd hj (Nat.not_lt_zero j)) hf.stack
    hf.control)
  rw [hs]
  exact Nat.lt_succ_self _

end Concludes

/-- A callback in progress stays where it is until it returns; the callback of a task may also be
suspended. -/
theorem callback_step (client : Client σ β κ) {top : List (Layer β κ)} {rest : κ} {inv : Invocation}
    {below : List (Layer β κ)} (hs : m.stack = top ++ .callback rest inv :: below) :
    (∃ top' rest', (m.step client).stack = top' ++ .callback rest' inv :: below) ∨
      (∃ outcome, (m.step client).stack = below ∧
        (m.step client).control = .deliver (.returned outcome)) ∨
      ∃ c task, inv.role = .task c task := by
  cases top with
  | cons layer top =>
      obtain ⟨new, hnew⟩ := stack_step_cons client hs
      exact .inl ⟨new ++ top, rest, hnew.symm.trans (List.append_assoc _ _ _).symm⟩
  | nil => exact step_callback client hs

/-- A callback that has started is in progress as long as there is more on the stack than at its
start. -/
theorem callback_runs {callback : β} {inv : Invocation} (hm : m.control = .invoke callback inv)
    (hrole : ∀ c task, inv.role ≠ .task c task) {n : Nat} (hpos : 0 < n)
    (hbusy : ∀ j, 0 < j → j ≤ n → m.stack.length < (m.after client j).stack.length) :
    ∃ top rest, (m.after client n).stack = top ++ .callback rest inv :: m.stack := by
  induction n with
  | zero => exact absurd hpos (Nat.lt_irrefl 0)
  | succ n ih =>
      rcases Nat.eq_zero_or_pos n with rfl | hn
      · exact ⟨[], _, (step_fields client (advance_invoke client hm)).1⟩
      · obtain ⟨top, rest, hstack⟩ := ih hn fun j hj hjn => hbusy j hj (Nat.le_succ_of_le hjn)
        rcases callback_step client hstack with hruns | ⟨outcome, hgone, -⟩ | ⟨c, task, htask⟩
        · exact hruns
        · exact absurd hgone (stack_ne_of_busy (hbusy (n + 1) hpos (Nat.le_refl _)))
        · exact absurd htask (hrole c task)

/-- A callback that starts returns or hangs. -/
theorem returns_or_hangs (client : Client σ β κ) {callback : β} {inv : Invocation}
    (hm : m.control = .invoke callback inv) (hrole : ∀ c task, inv.role ≠ .task c task) :
    m.Hangs client callback inv ∨ ∃ n outcome,
      (∀ j, 0 < j → j < n → m.stack.length < (m.after client j).stack.length) ∧
      (m.after client n).stack = m.stack ∧
      (m.after client n).control = .deliver (.returned outcome) := by
  by_cases hends : ∃ n, 0 < n ∧ (m.after client n).stack.length ≤ m.stack.length
  · -- the first step after which there is no more on the stack than at the start
    classical
    obtain ⟨hpos, hlow⟩ := Nat.find_spec hends
    have hbusy : ∀ j, 0 < j → j < Nat.find hends →
        m.stack.length < (m.after client j).stack.length := fun j hj hlt =>
      Nat.lt_of_not_le fun hle => Nat.find_min hends hlt ⟨hj, hle⟩
    generalize Nat.find hends = n at hpos hlow hbusy
    have hgone (top : List (Layer β κ)) (rest : κ) :
        (m.after client n).stack ≠ top ++ .callback rest inv :: m.stack := by
      intro heq
      rw [heq, List.length_append, List.length_cons] at hlow
      omega
    obtain ⟨k, rfl⟩ : ∃ k, n = k + 1 := ⟨n - 1, by omega⟩
    rcases Nat.eq_zero_or_pos k with rfl | hk
    · exact absurd (step_fields client (advance_invoke client hm)).1 (hgone [] _)
    · obtain ⟨top, rest, hstack⟩ := callback_runs hm hrole hk fun j hj hjk =>
        hbusy j hj (Nat.lt_succ_of_le hjk)
      rcases callback_step client hstack with ⟨top', rest', hnew⟩ | hreturns | ⟨c, task, htask⟩
      · exact absurd hnew (hgone top' rest')
      · obtain ⟨outcome, hs, hc⟩ := hreturns
        exact .inr ⟨k + 1, outcome, hbusy, hs, hc⟩
      · exact absurd htask (hrole c task)
  · exact .inl ⟨hm, fun j hj => Nat.lt_of_not_le fun hle => hends ⟨j, hj, hle⟩⟩

namespace Concludes

/-- A callback is waited for. -/
theorem of_callback {callback : β} {inv : Invocation} (hm : m.control = .invoke callback inv)
    (hbusy : base.length < m.stack.length) (hcall : calls inv)
    (hrole : ∀ c task, inv.role ≠ .task c task)
    (hnext : ∀ (m' : Machine σ β κ) outcome, m'.stack = m.stack →
      m'.control = .deliver (.returned outcome) → m'.Concludes client base calls replies) :
    m.Concludes client base calls replies := by
  rcases returns_or_hangs client hm hrole with hhangs | ⟨n, outcome, hlonger, hs, hc⟩
  · refine .hangs 0 callback inv hcall (fun j hj => ?_) hhangs
    obtain rfl : j = 0 := by omega
    exact hbusy
  · refine of_after (k := n) (fun j hj => ?_) (hnext _ outcome hs hc)
    rcases Nat.eq_zero_or_pos j with rfl | hpos
    · exact hbusy
    · exact Nat.lt_trans hbusy (hlonger j hpos hj)

/-- An emission gives all its handlers their turns. -/
theorem of_emission {e : Emission β} {layer : Layer β κ} {reply : Reply β}
    (hm : m.control = .deliver reply) (hs : m.stack = .operation (.emission e) :: layer :: base)
    (hcall : ∀ id args, calls { role := .handler id, self := some e.owner, args })
    (hnext : ∀ (m' : Machine σ β κ) result, m'.stack = layer :: base →
      m'.control = .deliver (.value result) → m'.Concludes client base calls replies) :
    m.Concludes client base calls replies := by
  -- every turn takes a handler off the list
  induction hlength : e.remaining.length using Nat.strongRecOn generalizing m e reply with
  | ind n ih =>
      have hrest {h : Handler β} {rest : List (Handler β)}
          (hcons : (e.hear reply).1.remaining = h :: rest) : rest.length < n := by
        rw [Emission.remaining_hear] at hcons
        rw [← hlength, hcons]
        exact Nat.lt_succ_self _
      have hbusy (e : Emission β) :
          base.length < (Layer.operation (.emission e) :: layer :: base).length :=
        Nat.lt_add_of_pos_right (Nat.succ_pos 1)
      have howner := e.owner_hear reply
      refine .of_step (hs ▸ hbusy e) ?_
      rcases advance_hearing client hm hs with ⟨-, hadvance⟩ | ⟨-, p, hturn, hadvance⟩
      · have hf := follows_of_advance client hadvance
        exact hnext _ _ hf.stack hf.control
      · have hf := follows_of_advance client hadvance
        cases hturn with
        | ends hnil => exact hnext _ _ hf.stack hf.control
        | settles h rest event o hcons hconnected hout =>
            exact ih _ (hrest hcons) hf.control hf.stack (howner ▸ hcall) rfl
        | passes h rest hcons hgone =>
            exact ih _ (hrest hcons) hf.control hf.stack (howner ▸ hcall) rfl
        | calls h rest callback args heeded hcons hconnected hcallback =>
            refine .of_callback hf.control (hf.stack ▸ hbusy _) (howner ▸ hcall h.id args)
              (fun _ _ htask => by cases htask) fun m' outcome hs' hc' => ?_
            exact ih _ (hrest hcons) hc' (hs'.trans hf.stack) (howner ▸ hcall) rfl

end Concludes

/-! ## Answers -/

/-- A command is answered once. -/
theorem Answers.unique {command : Command β} {reply reply' : Reply β} {k k' : Nat}
    (h : m.Answers client command reply k) (h' : m.Answers client command reply' k') :
    reply = reply' ∧ k = k' := by
  have hle {r r' : Reply β} {n n' : Nat} (h : m.Answers client command r n)
      (h' : m.Answers client command r' n') : n' ≤ n :=
    Nat.le_of_not_lt fun hlt => stack_ne_of_busy (h'.busy n h.pos hlt) h.stack
  obtain rfl := Nat.le_antisymm (hle h' h) (hle h h')
  cases h.control.symm.trans h'.control
  exact ⟨rfl, rfl⟩

/-- What comes to its end after the first step is the answer. -/
theorem Answers.of_step {command : Command β} (hm : m.control = .perform command) {n : Nat}
    {reply : Reply β}
    (hbusy : ∀ j, j < n → m.stack.length < ((m.step client).after client j).stack.length)
    (hs : ((m.step client).after client n).stack = m.stack)
    (hc : ((m.step client).after client n).control = .deliver reply) :
    m.Answers client command reply (n + 1) := by
  rw [after_succ] at hs hc
  refine .of_perform hm (fun i hpos hi => ?_) (congrArg List.length hs) hc
  obtain ⟨j, rfl⟩ : ∃ j, i = j + 1 := ⟨i - 1, by omega⟩
  rw [← after_succ]
  exact hbusy j (Nat.lt_of_succ_lt_succ hi)

/-- If a callback hangs that is started before there is an answer, there is none. -/
theorem Hangs.not_answers {command : Command β} (hm : m.control = .perform command) {n : Nat}
    {callback : β} {inv : Invocation}
    (hbusy : ∀ j, j ≤ n → m.stack.length < ((m.step client).after client j).stack.length)
    (h : ((m.step client).after client n).Hangs client callback inv) (reply : Reply β) (k : Nat) :
    ¬m.Answers client command reply k := by
  rw [after_succ] at h
  intro hk
  refine absurd hk.stack (stack_ne_of_busy ?_)
  rw [asking_eq hm]
  -- an answer would come before the callback starts, or while it hangs
  have hbefore : ∀ j, 0 < j → j ≤ n + 1 →
      m.stack.length < (m.after client j).stack.length := by
    intro j hpos hj
    obtain ⟨i, rfl⟩ : ∃ i, j = i + 1 := ⟨j - 1, by omega⟩
    rw [← after_succ]
    exact hbusy i (Nat.le_of_succ_le_succ hj)
  rcases Nat.lt_or_ge (n + 1) k with hlt | hle
  · obtain ⟨j, rfl⟩ := Nat.exists_eq_add_of_lt hlt
    have hlater := h.busy (j + 1) (Nat.succ_pos j)
    rw [← after_add] at hlater
    exact Nat.lt_trans (hbefore (n + 1) (Nat.succ_pos n) (Nat.le_refl _)) hlater
  · exact hbefore k hk.pos hle

/-- A command whose operation concludes is answered unless a callback hangs; and whatever it is
answered is of the kind that the operation replies. -/
theorem Concludes.answers {command : Command β} (hm : m.control = .perform command)
    (h : (m.step client).Concludes client m.stack calls replies) :
    (∀ reply k, m.Answers client command reply k → replies reply) ∧
      ((∃ reply k, replies reply ∧ m.Answers client command reply k) ∨
        ∃ n callback inv, calls inv ∧ (m.after client n).Hangs client callback inv) := by
  cases h with
  | ends n reply hreply hbusy hs hc =>
      have hanswers := Answers.of_step hm hbusy hs hc
      exact ⟨fun reply' k hk => (hanswers.unique hk).1 ▸ hreply,
        .inl ⟨reply, n + 1, hreply, hanswers⟩⟩
  | hangs n callback inv hcall hbusy h =>
      refine ⟨fun reply k hk => absurd hk (h.not_answers hm hbusy reply k),
        .inr ⟨n + 1, callback, inv, hcall, ?_⟩⟩
      rwa [after_succ] at h

end

end Machine

end ObjectSystem
