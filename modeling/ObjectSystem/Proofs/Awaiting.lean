import ObjectSystem.Proofs.Bridge

/-!
# Awaited events settle once

An awaited event has handlers of its own, one for the awaited signal and perhaps one for a rejecting
signal. `Machine.invoked?` tells which handler an emission calls with the next step. What a step
means for an awaited event is one of three things (`Verdict`): one of its handlers is called and
settles it; it is abandoned; or it stays what it was, and its outcome is taken at most. `Stage` is
what this comes to in a run, and `awaited_event_settles_once` is the contract.
-/

namespace ObjectSystem

variable {σ β κ : Type}

/-! ## What a run shows of an event -/

namespace Machine

/-- The outcome of an event, from when it is settled until it is taken. -/
def outcome? (m : Machine σ β κ) (e : EventId) : Option EventOutcome :=
  (m.world.events.find? e).bind (·.outcome)

/-- The handler that an emission calls with the next step, being connected when its turn comes, with
its instance and the arguments of the emission. -/
def invoked? (client : Client σ β κ) (m : Machine σ β κ) :
    Option (InstanceId × Handler β × List Value) :=
  match m.hearing? (m.stack.length - 1), m.turn? client (m.stack.length - 1) with
  | some (now, _), some h =>
    if m.world.isConnected now.owner h.id then some (now.owner, h, now.args) else none
  | _, _ => none

variable {client : Client σ β κ} {m : Machine σ β κ}

theorem invoked?_eq_some {i : InstanceId} {h : Handler β} {args : List Value}
    (hinv : m.invoked? client = some (i, h, args)) :
    ∃ now reply stack rest, m.control = .deliver reply ∧
      m.stack = .operation (.emission now) :: stack ∧
      stack.length < (m.step client).stack.length ∧ now.owner = i ∧ now.args = args ∧
      now.remaining = h :: rest ∧ m.world.isConnected i h.id = true := by
  unfold invoked? at hinv
  split at hinv
  · next now reply g hheard hturn =>
      split at hinv
      · next hconnected =>
          cases hinv
          obtain ⟨hm, stack, hs, hlength⟩ := hearing?_eq_some.mp hheard
          unfold turn? at hturn
          rw [hheard] at hturn
          dsimp only at hturn
          split at hturn
          · next hstays =>
              obtain ⟨rest, hremaining⟩ := List.head?_eq_some_iff.mp hturn
              exact ⟨now, reply, stack, rest, hm, hs, hlength ▸ hstays, rfl, rfl, hremaining,
                hconnected⟩
          · cases hturn
      · cases hinv
  · cases hinv

/-- A connected handler that an emission has passed is one that it has called. -/
theorem invoked?_of_turn (client : Client σ β κ) {now now' : Emission β}
    {stack : List (Layer β κ)} {reply : Reply β} {h : Handler β} (hm : m.control = .deliver reply)
    (hs : m.stack = .operation (.emission now) :: stack)
    (hs' : (m.step client).stack = .operation (.emission now') :: stack)
    (hremaining : now.remaining = h :: now'.remaining)
    (hconnected : m.world.isConnected now.owner h.id = true) :
    m.invoked? client = some (now.owner, h, now.args) := by
  have hheight : m.stack.length - 1 = stack.length := by
    rw [hs]
    rfl
  have hheard := hearing?_of_deliver hm hs
  have hturn : m.turn? client stack.length = some h := by
    unfold turn?
    rw [hheard]
    dsimp only
    rw [if_pos (by rw [hs']; exact Nat.lt_succ_self _), hremaining]
    rfl
  unfold invoked?
  rw [hheight, hheard, hturn]
  exact if_pos hconnected

/-- A handler that settles an event does so when it is called. -/
theorem Reachable.settles_of_invoked (hreach : Machine.Reachable client m) {i : InstanceId}
    {h : Handler β} {args : List Value} {e : EventId}
    (hinv : m.invoked? client = some (i, h, args)) (htarget : h.target.event? = some e) :
    ∃ o, h.target.outcome? args = some (e, o) ∧ m.world.Connected i h ∧
      (m.advance client).world = m.world.settle e o := by
  obtain ⟨now, reply, stack, rest, hm, hs, hstays, rfl, rfl, hremaining, hconnected⟩ :=
    invoked?_eq_some hinv
  have hin := (hreach.isConnected_iff hs hremaining).mp hconnected
  rw [stack_step] at hstays
  rcases advance_hearing client hm hs with ⟨-, hadvance⟩ | ⟨-, p, hturn, hadvance⟩
  · rw [hadvance] at hstays
    exact absurd hstays (Nat.lt_irrefl _)
  · rw [hadvance] at hstays ⊢
    have hremaining' := (Emission.remaining_hear now reply).trans hremaining
    cases hturn with
    | ends hnil => exact absurd hstays (Nat.lt_irrefl _)
    | calls g rest' callback args heeded hcons hconnected' hcall =>
        cases hremaining'.symm.trans hcons
        cases (HandlerTarget.call?_of_event? htarget _).symm.trans hcall
    | settles g rest' event o hcons hconnected' hout =>
        cases hremaining'.symm.trans hcons
        rw [Emission.args_hear] at hout
        cases (HandlerTarget.event?_of_outcome? hout).symm.trans htarget
        exact ⟨o, hout, hin, rfl⟩
    | passes g rest' hcons hgone =>
        cases hremaining'.symm.trans hcons
        rw [Emission.owner_hear] at hgone
        cases hgone.symm.trans hconnected

end Machine

/-! ## The handlers of an event -/

namespace World

/-- An event of an instance and its handlers, of which some may be connected. -/
structure Awaited (w : World β) (e : EventId) (i : InstanceId) (hs : List (Handler β)) : Prop where
  targets : ∀ h ∈ hs, h.target.event? = some e
  event : ∃ ev, w.events.find? e = some ev ∧ ev.owner = i ∧
    (ev.isOpen = true → ev.handlers = hs.map (·.id))
  only : ∀ j d, w.estate? j = some d → ∀ h ∈ d.handlers, h.target.event? = some e → h ∈ hs

section
variable {v w : World β} {e : EventId} {i : InstanceId} {hs : List (Handler β)}

theorem Awaited.plain (h : w.Awaited e i hs) (hv : Plain w v) : v.Awaited e i hs := by
  obtain ⟨ev, hev, howner, hhandlers⟩ := h.event
  obtain ⟨ev', hev', hage⟩ := hv.find_after hev
  refine ⟨h.targets, ⟨ev', hev', hage.owner.trans howner, fun hopen => ?_⟩, ?_⟩
  · exact hage.handlers.trans (hhandlers (hage.isOpen.symm.trans hopen))
  · intro j d' hd' g hg htarget
    obtain ⟨d, hd, hold⟩ := hv.mem_handlers hd' hg htarget
    exact h.only j d hd g hold htarget

theorem Awaited.settled (h : w.Awaited e i hs) {f : EventId} {ev₀ : Event} {o : EventOutcome}
    (hv : w.Settled f ev₀ o v) : v.Awaited e i hs := by
  obtain ⟨ev, hev, howner, hhandlers⟩ := h.event
  refine ⟨h.targets, ?_, fun j d' hd' g hg htarget => ?_⟩
  · rw [hv.event]
    split
    · next he =>
        rw [he] at hev
        cases hev.symm.trans hv.found
        rw [isOpen_settle hv.wasOpen]
        exact ⟨_, rfl, howner, fun hopen => (by cases hopen)⟩
    · exact ⟨ev, hev, howner, hhandlers⟩
  · obtain ⟨d, hd, hold, -⟩ := hv.mem_handlers hd' hg
    exact h.only j d hd g hold htarget

/-- Another event that is awaited has handlers of its own. -/
theorem Awaited.awaits (h : w.Awaited e i hs) (hw : w.Bridged) {j : InstanceId} {d : Estate β}
    {reject : Option String} {f : EventId} {gs : List (Handler β)}
    (hv : Awaits w j d reject f gs v) : f ≠ e ∧ v.Awaited e i hs := by
  obtain ⟨ev, hev, howner, hhandlers⟩ := h.event
  have hne : f ≠ e := by
    rintro rfl
    cases (hv.not_found hw).symm.trans hev
  refine ⟨hne, h.targets, ⟨ev, ?_, howner, hhandlers⟩, fun k d' hd' g hg htarget => ?_⟩
  · rw [hv.event, if_neg (Ne.symm hne)]
    exact hev
  · rcases hv.mem_handlers hd' hg with ⟨d₀, hd₀, hold⟩ | ⟨-, hnew⟩
    · exact h.only k d₀ hd₀ g hold htarget
    · cases (hv.event?_of_mem hnew).symm.trans htarget
      exact absurd rfl hne

theorem Awaited.sheds (h : w.Awaited e i hs) {events : List EventId}
    (hv : Sheds events w v) : v.Awaited e i hs := by
  induction hv with
  | refl => exact h
  | abandons _ f ev hf hnone hsettled ih => exact ih.settled hsettled
  | drops _ _ j hj ih => exact ih.plain (plain_dropInstance _ j)

/-- An event that was just awaited. -/
theorem Awaits.awaited (hw : w.Bridged) {d : Estate β} {reject : Option String}
    (h : Awaits w i d reject e hs v) : v.Awaited e i hs := by
  refine ⟨fun g hg => h.event?_of_mem hg,
    ⟨{ owner := i, handlers := hs.map (·.id) }, ?_, rfl, fun _ => rfl⟩,
    fun j d' hd' g hg htarget => ?_⟩
  · rw [h.event, if_pos rfl]
  · rcases h.mem_handlers hd' hg with ⟨d, hd, hold⟩ | ⟨-, hnew⟩
    · -- a handler that was connected before cannot settle a new event
      obtain ⟨ev, hev, -⟩ := hw.served j d hd g hold e htarget
      cases (h.not_found hw).symm.trans hev
    · exact hnew

end

end World

/-! ## What a step means for an event -/

open World (Plain Awaited)

/-- What a step means for an awaited event. -/
inductive Verdict (client : Client σ β κ) (m : Machine σ β κ) (e : EventId) (i : InstanceId)
    (hs : List (Handler β)) : Prop
  /-- One of its handlers is called and settles it. -/
  | settles (ev : Event) (h : Handler β) (args : List Value) (o : EventOutcome) (hh : h ∈ hs)
      (hinv : m.invoked? client = some (i, h, args)) (hout : h.target.outcome? args = some (e, o))
      (hsettled : m.world.Settled e ev o (m.advance client).world)
      (hev : (m.step client).world.events.find? e = some (ev.settle o))
  /-- It is abandoned. -/
  | abandons (ev ev' : Event)
      (hnot : ∀ j h args, m.invoked? client = some (j, h, args) → h ∉ hs)
      (hev : m.world.events.find? e = some ev) (hopen : ev.isOpen = true)
      (hev' : (m.step client).world.events.find? e = some ev') (hclosed : ev'.isOpen = false)
      (hout : ev'.outcome = some (.error .abandoned))
  /-- It stays what it was, and its outcome is taken at most. -/
  | ages (ev ev' : Event) (hnot : ∀ j h args, m.invoked? client = some (j, h, args) → h ∉ hs)
      (hev : m.world.events.find? e = some ev)
      (hev' : (m.step client).world.events.find? e = some ev') (hage : ev.Aged ev')

section
variable {client : Client σ β κ} {m : Machine σ β κ} {e : EventId} {i : InstanceId}
  {hs : List (Handler β)}

theorem World.Awaited.step (hreach : Machine.Reachable client m) (h : m.world.Awaited e i hs) :
    (m.step client).world.Awaited e i hs := by
  refine World.Awaited.sheds ?_ (Machine.sheds_step client m)
  cases (deal_advance client m).bridging hreach.bridged with
  | plain hplain => exact h.plain hplain
  | awaits j d reject f gs hawaits => exact (h.awaits hreach.bridged hawaits).2
  | settles now now' stack reply g f o hm hstack hstack' hremaining hconnected hout hw =>
      rw [hw]
      rcases World.settled_or_same m.world f o with ⟨ev, hsettled⟩ | hsame
      · exact h.settled hsettled
      · rw [hsame]
        exact h

/-- A handler of an event that is called settles it. -/
theorem World.Awaited.settles (hreach : Machine.Reachable client m) (h : m.world.Awaited e i hs)
    {j : InstanceId} {g : Handler β} {args : List Value} (hg : g ∈ hs)
    (hinv : m.invoked? client = some (j, g, args)) :
    j = i ∧ ∃ ev o, g.target.outcome? args = some (e, o) ∧
      m.world.Settled e ev o (m.advance client).world ∧
      (m.step client).world.events.find? e = some (ev.settle o) := by
  obtain ⟨ev, hev, howner, -⟩ := h.event
  obtain ⟨o, hout, ⟨x, hx, hconnected⟩, hadvance⟩ :=
    hreach.settles_of_invoked hinv (h.targets g hg)
  obtain ⟨ev', hev', hopen, hj, -⟩ := hreach.bridged.served j x.estate (World.estate?_eq hx) g
    hconnected e (h.targets g hg)
  cases hev'.symm.trans hev
  have hsettled : m.world.Settled e ev o (m.advance client).world :=
    hadvance ▸ World.settled_settle hev hopen o
  have hclosed : (m.advance client).world.events.find? e = some (ev.settle o) := by
    rw [hsettled.event, if_pos rfl]
  refine ⟨hj.symm.trans howner, ev, o, hout, hsettled, ?_⟩
  rcases (Machine.sheds_step client m).event e with hsame | ⟨ev', hev', hopen', -⟩
  · exact hsame.trans hclosed
  · cases hclosed.symm.trans hev'
    rw [World.isOpen_settle hopen] at hopen'
    cases hopen'

/-- With a move that calls none of its handlers, an event stays what it was, but for an outcome that
may be taken. -/
theorem World.Awaited.aged (hreach : Machine.Reachable client m) (h : m.world.Awaited e i hs)
    (hnot : ∀ j g args, m.invoked? client = some (j, g, args) → g ∉ hs) {ev : Event}
    (hev : m.world.events.find? e = some ev) :
    ∃ ev', (m.advance client).world.events.find? e = some ev' ∧ ev.Aged ev' := by
  cases (deal_advance client m).bridging hreach.bridged with
  | plain hplain => exact hplain.find_after hev
  | awaits j d reject f gs hawaits =>
      refine ⟨ev, ?_, .refl ev⟩
      rw [hawaits.event, if_neg (h.awaits hreach.bridged hawaits).1.symm]
      exact hev
  | settles now now' stack reply g f o hm hstack hstack' hremaining hconnected hout hw =>
      rw [hw]
      rcases World.settled_or_same m.world f o with ⟨ev', hsettled⟩ | hsame
      · refine ⟨ev, ?_, .refl ev⟩
        rw [hsettled.event, if_neg]
        · exact hev
        · -- a handler of the event would have been called
          rintro rfl
          have hcalled := Machine.invoked?_of_turn client hm hstack
            ((Machine.stack_step client m).trans hstack') hremaining hconnected
          obtain ⟨x, hx, hin⟩ := (hreach.isConnected_iff hstack hremaining).mp hconnected
          exact hnot _ g _ hcalled (h.only _ x.estate (World.estate?_eq hx) g hin
            (HandlerTarget.event?_of_outcome? hout))
      · rw [hsame]
        exact ⟨ev, hev, .refl ev⟩

theorem World.Awaited.verdict (hreach : Machine.Reachable client m) (h : m.world.Awaited e i hs) :
    Verdict client m e i hs := by
  by_cases hinv : ∃ j g args, m.invoked? client = some (j, g, args) ∧ g ∈ hs
  · obtain ⟨j, g, args, hinv, hg⟩ := hinv
    obtain ⟨rfl, ev, o, hout, hsettled, hev⟩ := h.settles hreach hg hinv
    exact .settles ev g args o hg hinv hout hsettled hev
  · have hnot (j : InstanceId) (g : Handler β) (args : List Value)
        (hg : m.invoked? client = some (j, g, args)) : g ∉ hs :=
      fun hmem => hinv ⟨j, g, args, hg, hmem⟩
    obtain ⟨ev, hev, -⟩ := h.event
    obtain ⟨ev₀, hev₀, hage⟩ := h.aged hreach hnot hev
    -- reclaiming may have abandoned it
    rcases (Machine.sheds_step client m).event e with hsame | ⟨ev', hev', hopen, habandoned⟩
    · exact .ages ev ev₀ hnot hev (hsame.trans hev₀) hage
    · cases hev₀.symm.trans hev'
      rw [World.isOpen_settle hopen] at habandoned
      exact .abandons ev _ hnot hev (hage.isOpen ▸ hopen) habandoned rfl rfl

/-- Only an open event has handlers that are connected. -/
theorem World.Awaited.isOpen (hreach : Machine.Reachable client m) (h : m.world.Awaited e i hs)
    {g : Handler β} (hg : g ∈ hs) {j : InstanceId} (hconnected : m.world.Connected j g) :
    ∃ ev, m.world.events.find? e = some ev ∧ ev.isOpen = true := by
  obtain ⟨x, hx, hin⟩ := hconnected
  obtain ⟨ev, hev, hopen, -⟩ := hreach.bridged.served j x.estate (World.estate?_eq hx) g hin e
    (h.targets g hg)
  exact ⟨ev, hev, hopen⟩

/-- A closed event stays closed; its outcome stays the same until it is taken. -/
theorem World.Awaited.closed_step (hreach : Machine.Reachable client m)
    (h : m.world.Awaited e i hs) {ev : Event} (hev : m.world.events.find? e = some ev)
    (hclosed : ev.isOpen = false) :
    (∃ ev', (m.step client).world.events.find? e = some ev' ∧ ev.Aged ev') ∧
      ∀ j g args, m.invoked? client = some (j, g, args) → g ∉ hs := by
  cases h.verdict hreach with
  | settles ev₀ g args o hg hinv hout hsettled hev' =>
      cases hsettled.found.symm.trans hev
      cases hsettled.wasOpen.symm.trans hclosed
  | abandons ev₀ ev' hnot hev₀ hopen hev' hclosed' hout =>
      cases hev₀.symm.trans hev
      cases hopen.symm.trans hclosed
  | ages ev₀ ev' hnot hev₀ hev' hage =>
      cases hev₀.symm.trans hev
      exact ⟨⟨ev', hev', hage⟩, hnot⟩

/-! ## What becomes of an event in a run -/

theorem World.Awaited.after (hreach : Machine.Reachable client m) (h : m.world.Awaited e i hs)
    (n : Nat) : (m.after client n).world.Awaited e i hs := by
  induction n with
  | zero => exact h
  | succ n ih => exact ih.step (hreach.after n)

theorem World.Awaited.closed_later (hreach : Machine.Reachable client m)
    (h : m.world.Awaited e i hs) {n n' : Nat} (hle : n ≤ n') {ev : Event}
    (hev : (m.after client n).world.events.find? e = some ev) (hclosed : ev.isOpen = false) :
    ∃ ev', (m.after client n').world.events.find? e = some ev' ∧ ev.Aged ev' := by
  induction hle with
  | refl => exact ⟨ev, hev, .refl ev⟩
  | @step k hle ih =>
      obtain ⟨ev', hev', hage⟩ := ih
      obtain ⟨⟨ev'', hev'', hage'⟩, -⟩ :=
        (h.after hreach k).closed_step (hreach.after k) hev' (hage.isOpen.trans hclosed)
      exact ⟨ev'', hev'', hage.trans hage'⟩

/-- What has become of an awaited event after so many steps. -/
inductive Stage (client : Client σ β κ) (m : Machine σ β κ) (e : EventId) (i : InstanceId)
    (hs : List (Handler β)) (n : Nat) : Prop
  | waits (ev : Event) (hev : (m.after client n).world.events.find? e = some ev)
      (hopen : ev.isOpen = true)
      (hnot : ∀ k, k < n → ∀ j h args, (m.after client k).invoked? client = some (j, h, args) →
        h ∉ hs)
  | settled (k : Nat) (h : Handler β) (args : List Value) (o : EventOutcome) (ev : Event)
      (hk : k < n) (hh : h ∈ hs) (hinv : (m.after client k).invoked? client = some (i, h, args))
      (hout : h.target.outcome? args = some (e, o))
      (hev : (m.after client n).world.events.find? e = some ev) (hclosed : ev.isOpen = false)
      (hkept : ev.outcome = some o ∨ ev.outcome = none)
      (hfirst : ∀ k', k' < n → ∀ j h' args',
        (m.after client k').invoked? client = some (j, h', args') → h' ∈ hs → k' = k)
  | abandoned (ev : Event) (hev : (m.after client n).world.events.find? e = some ev)
      (hclosed : ev.isOpen = false)
      (hkept : ev.outcome = some (.error .abandoned) ∨ ev.outcome = none)
      (hnot : ∀ k, k < n → ∀ j h args, (m.after client k).invoked? client = some (j, h, args) →
        h ∉ hs)

theorem kept_of_aged {ev ev' : Event} {o : EventOutcome} (h : ev.Aged ev')
    (hkept : ev.outcome = some o ∨ ev.outcome = none) :
    ev'.outcome = some o ∨ ev'.outcome = none := by
  rcases h.outcome with hsame | hnone
  · rw [hsame]
    exact hkept
  · exact .inr hnone

/-- What holds of all steps before and of this one holds of all steps up to it. -/
theorem forall_lt_succ {p : Nat → Prop} {n : Nat} (h : ∀ k, k < n → p k) (hn : p n) :
    ∀ k, k < n + 1 → p k := by
  intro k hk
  rcases Nat.lt_succ_iff_lt_or_eq.mp hk with hlt | rfl
  · exact h k hlt
  · exact hn

theorem Stage.step (hreach : Machine.Reachable client m) (hawaited : m.world.Awaited e i hs)
    {n : Nat} (h : Stage client m e i hs n) : Stage client m e i hs (n + 1) := by
  have hreach' := hreach.after n
  have hawaited' := hawaited.after hreach n
  cases h with
  | waits ev hev hopen hnot =>
      cases hawaited'.verdict hreach' with
      | settles ev₀ g args o hg hinv hout hsettled hev' =>
          have hclosed := World.isOpen_settle hsettled.wasOpen o
          refine .settled n g args o _ (Nat.lt_succ_self n) hg hinv hout hev' ?_ ?_ ?_
          · rw [hclosed]
          · rw [hclosed]
            exact .inl rfl
          · refine forall_lt_succ (fun k hk j h' args' hinv' hmem => ?_) fun _ _ _ _ _ => rfl
            exact absurd hmem (hnot k hk j h' args' hinv')
      | abandons ev₀ ev' hnot' hev₀ hopen' hev' hclosed hout =>
          exact .abandoned ev' hev' hclosed (.inl hout) (forall_lt_succ hnot hnot')
      | ages ev₀ ev' hnot' hev₀ hev' hage =>
          cases hev₀.symm.trans hev
          exact .waits ev' hev' (hage.isOpen.trans hopen) (forall_lt_succ hnot hnot')
  | settled k g args o ev hk hg hinv hout hev hclosed hkept hfirst =>
      obtain ⟨⟨ev', hev', hage⟩, hnot'⟩ := hawaited'.closed_step hreach' hev hclosed
      refine .settled k g args o ev' (Nat.lt_succ_of_lt hk) hg hinv hout hev'
        (hage.isOpen.trans hclosed) (kept_of_aged hage hkept) ?_
      exact forall_lt_succ hfirst fun j h' args' hinv' hmem => absurd hmem (hnot' j h' args' hinv')
  | abandoned ev hev hclosed hkept hnot =>
      obtain ⟨⟨ev', hev', hage⟩, hnot'⟩ := hawaited'.closed_step hreach' hev hclosed
      exact .abandoned ev' hev' (hage.isOpen.trans hclosed) (kept_of_aged hage hkept)
        (forall_lt_succ hnot hnot')

/-- The contract of an awaited event: `m` is the state in which its handlers have been connected to
the instance. -/
structure Machine.Settles (client : Client σ β κ) (m : Machine σ β κ) (e : EventId) (i : InstanceId)
    (hs : List (Handler β)) : Prop where
  /-- It gets one outcome at most. -/
  once : ∀ n n' o o', (m.after client n).outcome? e = some o →
    (m.after client n').outcome? e = some o' → o = o'
  /-- Once taken, the outcome is gone. -/
  taken : ∀ n n' n'' o, n ≤ n' → n' ≤ n'' → (m.after client n).outcome? e = some o →
    (m.after client n').outcome? e = none → (m.after client n'').outcome? e = none
  /-- The handler that is called first settles it; from then on neither is connected, and neither is
  called again. -/
  first : ∀ n h args, h ∈ hs → (m.after client n).invoked? client = some (i, h, args) →
    (∃ o, h.target.outcome? args = some (e, o) ∧ (m.after client (n + 1)).outcome? e = some o) ∧
    (∀ n', n < n' → ∀ h' ∈ hs, ¬(m.after client n').world.Connected i h') ∧
    ∀ n' j h' args', h' ∈ hs → (m.after client n').invoked? client = some (j, h', args') → n' = n
  /-- No other handler is disconnected then. -/
  others : ∀ n h args, h ∈ hs → (m.after client n).invoked? client = some (i, h, args) →
    ∀ j x x', (m.after client n).world.instance? j = some x →
      (m.after client (n + 1)).world.instance? j = some x' →
        x'.handlers = if j = i then x.handlers.filter (·.id ∉ hs.map (·.id)) else x.handlers
  /-- An outcome is that of the handler that was called first, or the event is abandoned and neither
  is ever called. -/
  outcome : ∀ n o, (m.after client n).outcome? e = some o →
    (∃ k h args, k < n ∧ h ∈ hs ∧ (m.after client k).invoked? client = some (i, h, args) ∧
      h.target.outcome? args = some (e, o)) ∨
    o = .error .abandoned ∧ ∀ k j h args, (m.after client k).invoked? client = some (j, h, args) →
      h ∉ hs

/-- An event that has an outcome is closed. -/
theorem Machine.closed_of_outcome (hreach : Machine.Reachable client m) {o : EventOutcome}
    (h : m.outcome? e = some o) :
    ∃ ev, m.world.events.find? e = some ev ∧ ev.isOpen = false ∧ ev.outcome = some o := by
  obtain ⟨ev, hev, hout⟩ := Option.bind_eq_some_iff.mp h
  cases hopen : ev.isOpen with
  | false => exact ⟨ev, hev, hopen, hout⟩
  | true => cases (hreach.bridged.unsettled e ev hev hopen).symm.trans hout

/-- An outcome that is there stays until it is taken. -/
theorem World.Awaited.outcome_later (hreach : Machine.Reachable client m)
    (h : m.world.Awaited e i hs) {n n' : Nat} (hle : n ≤ n') {o : EventOutcome}
    (ho : (m.after client n).outcome? e = some o) :
    (m.after client n').outcome? e = some o ∨ (m.after client n').outcome? e = none := by
  obtain ⟨ev, hev, hclosed, hout⟩ := Machine.closed_of_outcome (hreach.after n) ho
  obtain ⟨ev', hev', hage⟩ := h.closed_later hreach hle hev hclosed
  unfold Machine.outcome?
  rw [hev']
  exact kept_of_aged hage (.inl hout)

theorem Stage.after (hreach : Machine.Reachable client m) (hawaited : m.world.Awaited e i hs)
    (h : Stage client m e i hs 0) (n : Nat) : Stage client m e i hs n := by
  induction n with
  | zero => exact h
  | succ n ih => exact ih.step hreach hawaited

/-- When an event is settled, its handlers are disconnected and no others. -/
theorem World.Awaited.handlers_of_invoked (hreach : Machine.Reachable client m)
    (h : m.world.Awaited e i hs) {g : Handler β} {args : List Value} (hg : g ∈ hs)
    (hinv : m.invoked? client = some (i, g, args)) {j : InstanceId} {x x' : Instance β}
    (hx : m.world.instance? j = some x) (hx' : (m.step client).world.instance? j = some x') :
    x'.handlers = if j = i then x.handlers.filter (·.id ∉ hs.map (·.id)) else x.handlers := by
  obtain ⟨-, ev, o, hout, hsettled, -⟩ := h.settles hreach hg hinv
  obtain ⟨ev', hev', howner, hids⟩ := h.event
  cases hev'.symm.trans hsettled.found
  obtain ⟨d, hd, hsame⟩ := (hreach.bridged.settled hsettled).handlers_of_sheds
    (Machine.sheds_step client m) (World.estate?_eq hx')
  rw [show x'.handlers = d.handlers from hsame]
  rw [hsettled.estate, World.estate?_eq hx, howner] at hd
  split at hd
  · next hj =>
      cases hd
      rw [if_pos hj, ← hids hsettled.wasOpen]
      rfl
  · next hj =>
      cases hd
      rw [if_neg hj]
      rfl

/-- A handler of an event is called in one step at most. -/
theorem World.Awaited.called_once (hreach : Machine.Reachable client m)
    (hawaited : m.world.Awaited e i hs) (hstage : Stage client m e i hs 0) {n n' : Nat}
    {j : InstanceId} {g g' : Handler β} {args args' : List Value} (hg : g ∈ hs) (hg' : g' ∈ hs)
    (hinv : (m.after client n).invoked? client = some (i, g, args))
    (hinv' : (m.after client n').invoked? client = some (j, g', args')) : n' = n := by
  have hn : n < n + n' + 1 := by omega
  have hn' : n' < n + n' + 1 := by omega
  cases hstage.after hreach hawaited (n + n' + 1) with
  | waits ev hev hopen hnot => exact absurd hg (hnot n hn i g args hinv)
  | abandoned ev hev hclosed hkept hnot => exact absurd hg (hnot n hn i g args hinv)
  | settled k h args'' o ev hk hh hinv'' hout hev hclosed hkept hfirst =>
      exact (hfirst n' hn' j g' args' hinv' hg').trans (hfirst n hn i g args hinv hg).symm

/-- Of a closed event no handler is connected. -/
theorem World.Awaited.not_connected (hreach : Machine.Reachable client m)
    (hawaited : m.world.Awaited e i hs) {n n' : Nat} (hle : n ≤ n') {ev : Event}
    (hev : (m.after client n).world.events.find? e = some ev) (hclosed : ev.isOpen = false)
    {g : Handler β} (hg : g ∈ hs) {j : InstanceId} : ¬(m.after client n').world.Connected j g := by
  intro hconnected
  obtain ⟨ev', hev', hage⟩ := hawaited.closed_later hreach hle hev hclosed
  obtain ⟨ev'', hev'', hopen⟩ :=
    (hawaited.after hreach n').isOpen (hreach.after n') hg hconnected
  cases hev'.symm.trans hev''
  cases (hage.isOpen.trans hclosed).symm.trans hopen

/-- Where an outcome comes from. -/
theorem World.Awaited.origin (hreach : Machine.Reachable client m)
    (hawaited : m.world.Awaited e i hs) (hstage : Stage client m e i hs 0) {n : Nat}
    {o : EventOutcome} (ho : (m.after client n).outcome? e = some o) :
    (∃ k h args, k < n ∧ h ∈ hs ∧ (m.after client k).invoked? client = some (i, h, args) ∧
      h.target.outcome? args = some (e, o)) ∨
    o = .error .abandoned ∧ ∀ k j h args, (m.after client k).invoked? client = some (j, h, args) →
      h ∉ hs := by
  obtain ⟨ev, hev, hclosed, hout⟩ := Machine.closed_of_outcome (hreach.after n) ho
  cases hstage.after hreach hawaited n with
  | waits ev' hev' hopen hnot =>
      cases hev.symm.trans hev'
      cases hopen.symm.trans hclosed
  | settled k g args o' ev' hk hg hinv hout' hev' hclosed' hkept hfirst =>
      cases hev.symm.trans hev'
      rcases hkept with hsame | hnone
      · cases hsame.symm.trans hout
        exact .inl ⟨k, g, args, hk, hg, hinv, hout'⟩
      · cases hnone.symm.trans hout
  | abandoned ev' hev' hclosed' hkept hnot =>
      cases hev.symm.trans hev'
      rcases hkept with hsame | hnone
      · refine .inr ⟨Option.some.inj (hout.symm.trans hsame), fun k j g args hinv => ?_⟩
        rcases Nat.lt_or_ge k n with hlt | hge
        · exact hnot k hlt j g args hinv
        · -- a closed event has no handlers that could be called
          obtain ⟨ev₁, hev₁, hage⟩ := hawaited.closed_later hreach hge hev hclosed
          exact ((hawaited.after hreach k).closed_step (hreach.after k) hev₁
            (hage.isOpen.trans hclosed)).2 j g args hinv
      · cases hnone.symm.trans hout

/-- An awaited event honours the contract. -/
theorem World.Awaited.contract (hreach : Machine.Reachable client m)
    (hawaited : m.world.Awaited e i hs) (hstage : Stage client m e i hs 0) :
    m.Settles client e i hs where
  once n n' o o' ho ho' := by
    rcases Nat.le_total n n' with hle | hle
    · rcases hawaited.outcome_later hreach hle ho with hsame | hnone
      · exact Option.some.inj (hsame.symm.trans ho')
      · cases hnone.symm.trans ho'
    · rcases hawaited.outcome_later hreach hle ho' with hsame | hnone
      · exact Option.some.inj (ho.symm.trans hsame)
      · cases hnone.symm.trans ho
  taken n n' n'' o hle hle' ho hnone := by
    obtain ⟨ev, hev, hclosed, -⟩ := Machine.closed_of_outcome (hreach.after n) ho
    obtain ⟨ev', hev', hage⟩ := hawaited.closed_later hreach hle hev hclosed
    obtain ⟨ev'', hev'', hage'⟩ :=
      hawaited.closed_later hreach hle' hev' (hage.isOpen.trans hclosed)
    unfold Machine.outcome? at hnone ⊢
    rw [hev'] at hnone
    rw [hev'']
    rcases hage'.outcome with hsame | hgone
    · exact hsame.trans hnone
    · exact hgone
  first n g args hg hinv := by
    obtain ⟨-, ev, o, hout, hsettled, hev⟩ :=
      (hawaited.after hreach n).settles (hreach.after n) hg hinv
    have hsettle := World.isOpen_settle hsettled.wasOpen o
    refine ⟨⟨o, hout, ?_⟩, fun n' hlt g' hg' => ?_, fun n' j g' args' hg' hinv' => ?_⟩
    · show ((((m.after client n).step client).world.events.find? e).bind (·.outcome)) = some o
      rw [hev, hsettle]
      rfl
    · -- the event is closed after the step, and so it is later
      have hclosed : (ev.settle o).isOpen = false := by rw [hsettle]
      exact hawaited.not_connected (n := n + 1) hreach hlt hev hclosed hg'
    · exact hawaited.called_once hreach hstage hg hg' hinv hinv'
  others n g args hg hinv j x x' hx hx' :=
    (hawaited.after hreach n).handlers_of_invoked (hreach.after n) hg hinv hx hx'
  outcome n o ho := hawaited.origin hreach hstage ho

/-! ## Awaiting -/

/-- The move that awaits an event is refused and changes nothing, or it connects handlers behind all
others, in a new event. -/
theorem Machine.advance_awaitEvent (client : Client σ β κ) (hb : m.world.Bridged) {resolve : String}
    {reject : Option String} (hm : m.control = .perform (.awaitEvent i resolve reject)) :
    ((m.advance client).control = .deliver .missing ∨
        ∃ error, (m.advance client).control = .deliver (.failed (.signal error))) ∧
      (m.advance client).world = m.world ∨
    ∃ e d hs, (m.advance client).control = .deliver (.event e) ∧
      hs.map Handler.address = (resolve :: reject.toList).map Instance.addressOf ∧
      m.world.Awaits i d reject e hs (m.advance client).world := by
  have hadvance :
      m.advance client = m.follow client m.stack (m.world.awaitEvent i resolve reject) := by
    unfold advance
    rw [hm]
    rfl
  rw [hadvance]
  unfold World.awaitEvent
  split
  · exact .inl ⟨.inl rfl, rfl⟩
  · next x hx =>
      dsimp only
      split
      · next error herror => exact .inl ⟨.inr ⟨error, rfl⟩, rfl⟩
      · next y ids hconnect =>
          obtain ⟨hs, haddress, hawaits⟩ := World.awaits_of_connectEvent hb hx hconnect
          exact .inr ⟨_, x.estate, hs, rfl, haddress, hawaits⟩

end

/-- **An awaited event settles once and leaves no handler behind.** Awaiting an event is refused,
and then every instance has the handlers that it had; or the event has handlers of its own for the
signals that are named, and honours the contract from then on (`Machine.Settles`). -/
theorem awaited_event_settles_once (client : Client σ β κ) (state : σ) (program : β) (k : Nat)
    (i : InstanceId) (resolve : String) (reject : Option String)
    (hm : ((Machine.initial state program).after client k).control =
      .perform (.awaitEvent i resolve reject)) :
    let m : Machine σ β κ := (Machine.initial state program).after client k
    let m' := m.step client
    ((m'.control = .deliver .missing ∨ ∃ error, m'.control = .deliver (.failed (.signal error))) ∧
      ∀ j x x', m.world.instance? j = some x → m'.world.instance? j = some x' →
        x'.handlers = x.handlers) ∨
    ∃ e hs, m'.control = .deliver (.event e) ∧
      hs.map Handler.address = (resolve :: reject.toList).map Instance.addressOf ∧
      hs.map (·.target) = .resolves e :: reject.toList.map (.rejects e) ∧
      (∀ j x x', m.world.instance? j = some x → m'.world.instance? j = some x' →
        x'.handlers = if j = i then x.handlers ++ hs else x.handlers) ∧
      m'.Settles client e i hs := by
  intro m m'
  have hreach : Machine.Reachable client m := (Machine.Reachable.initial state program).after k
  have hcontrol : m'.control = (m.advance client).control := Machine.control_step client m
  have hsheds := Machine.sheds_step client m
  rcases Machine.advance_awaitEvent client hreach.bridged hm with
    ⟨hrefused, hsame⟩ | ⟨e, d, hs, hgranted, haddress, hawaits⟩
  · rw [hcontrol]
    refine .inl ⟨hrefused, fun j x x' hx hx' => ?_⟩
    rw [hsame] at hsheds
    obtain ⟨d, hd, hhandlers⟩ := hreach.bridged.handlers_of_sheds hsheds (World.estate?_eq hx')
    cases (World.estate?_eq hx).symm.trans hd
    exact hhandlers
  · have hbridged := hreach.bridged.awaits hreach.ordered hawaits
    have hawaited := (hawaits.awaited hreach.bridged).sheds hsheds
    refine .inr ⟨e, hs, hcontrol.trans hgranted, haddress, hawaits.targets,
      fun j x x' hx hx' => ?_, hawaited.contract hreach.step ?_⟩
    · obtain ⟨d', hd', hhandlers⟩ := hbridged.handlers_of_sheds hsheds (World.estate?_eq hx')
      rw [show x'.handlers = d'.handlers from hhandlers]
      rw [hawaits.estate] at hd'
      split at hd'
      · next hj =>
          cases hd'
          cases (World.estate?_eq hx).symm.trans (hj ▸ hawaits.owner)
          rw [if_pos hj]
          rfl
      · next hj =>
          cases (World.estate?_eq hx).symm.trans hd'
          rw [if_neg hj]
          rfl
    · -- nothing but reclaiming can have settled the event so far
      have hev : (m.advance client).world.events.find? e =
          some { owner := i, handlers := hs.map (·.id) } := by
        rw [hawaits.event, if_pos rfl]
      rcases hsheds.event e with hsame | ⟨ev, hfound, hopen, habandoned⟩
      · exact .waits _ (hsame.trans hev) rfl fun k hk => absurd hk (Nat.not_lt_zero k)
      · cases hev.symm.trans hfound
        rw [World.isOpen_settle hopen] at habandoned
        exact .abandoned _ habandoned rfl (.inl rfl) fun k hk => absurd hk (Nat.not_lt_zero k)

/-- A program that awaits a signal and then emits it. A handler that was connected before emits the
rejecting signal first, from inside. -/
def waiter : Client Unit Nat (Routine Nat) :=
  .ofRoutines
    (fun
      | 0 => { acts := [.command (.newContext { clock := .manual }),
          .command (.construct { ofClass := .simple .empty [] none, context := ⟨0⟩ }),
          .command (.connect ⟨1⟩ "notify::done" 1),
          .command (.awaitEvent ⟨1⟩ "notify::done" (some "notify::failed")),
          .command (.emit ⟨1⟩ "notify::done" [.string "done"])] }
      | _ => { acts := [.command (.emit ⟨1⟩ "notify::failed" [.string "failed"])] })
    [.object ⟨1⟩]

set_option maxRecDepth 100000 in
/-- The rejecting signal settles the event in the middle of the emission that would resolve it. -/
theorem awaited_event_settles_once_waiter :
    let m : Machine Unit Nat (Routine Nat) := (Machine.initial () 0).after waiter 10
    ∃ hs, (m.step waiter).Settles waiter ⟨0⟩ ⟨1⟩ hs ∧ hs.length = 2 ∧
      ((m.step waiter).after waiter 7).outcome? ⟨0⟩ =
        some (.error (.rejected "notify::failed" [.string "failed"])) ∧
      ((m.step waiter).world.instance? ⟨1⟩).map (·.handlers.length) = some 3 ∧
      (((m.step waiter).after waiter 7).world.instance? ⟨1⟩).map (·.handlers.length) = some 1 := by
  intro m
  have hm : m.control =
      .perform (.awaitEvent ⟨1⟩ "notify::done" (some "notify::failed")) := by rfl
  have hevent : (m.step waiter).control = .deliver (.event ⟨0⟩) := by rfl
  rcases awaited_event_settles_once waiter () 0 10 ⟨1⟩ "notify::done" (some "notify::failed") hm
    with ⟨hrefused | ⟨error, hrefused⟩, -⟩ | ⟨e, hs, hgranted, haddress, -, -, hsettles⟩
  · cases hevent.symm.trans hrefused
  · cases hevent.symm.trans hrefused
  · cases hevent.symm.trans hgranted
    refine ⟨hs, hsettles, by simpa using congrArg List.length haddress, ?_, by decide +kernel,
      by decide +kernel⟩
    have herror : (((m.step waiter).after waiter 7).outcome? ⟨0⟩).map
        (fun o => match o with | .error error => some error | .ok _ => none) =
          some (some (.rejected "notify::failed" [.string "failed"])) := by decide +kernel
    obtain ⟨o, ho, hkind⟩ := Option.map_eq_some_iff.mp herror
    cases o with
    | ok args => cases hkind
    | error error =>
        cases hkind
        exact ho

end ObjectSystem
