import ObjectSystem.Proofs.LifeCycle
import ObjectSystem.Proofs.Pending
import ObjectSystem.Proofs.Service

/-!
# Leading runs

Whether a call of a debounced method runs at once depends on whether a timer is pending, and that is
set only when the run has ended. So of the calls of one burst those that are made from outside of the
leading run find the timer, but a call that is made within it does not: the body starts once more, and
so on (`leads_within_itself`).

`Machine.Leads` says that a call runs at once, and `Machine.Fires` that the timer of a method goes off.
A run at once is in progress as long as the operation that is to start the interval stands in its place
(`Machine.Within`). `leading_runs_nest` is the contract: two runs at once without the timer going off
in between are one within the other, and the first call that is made within a run at once runs at once.
-/

namespace ObjectSystem

variable {σ β κ : Type}

open Machine (marks Reachable Serves Service)

/-! ## Runs at once and timers -/

namespace Machine

/-- A call of a debounced method runs at once: with the next step its body is about to start, and the
interval is to start afterwards. -/
structure Leads (client : Client σ β κ) (m : Machine σ β κ) (i : InstanceId) (name : String)
    (d : Debounce) (callback : β) : Prop where
  invokes : ∃ args, m.control = .perform (.call i name args) ∧ (m.step client).control =
    .invoke callback { role := .method name, self := some i, args }
  stack : (m.step client).stack = .operation (.startInterval i name d callback) :: m.stack

/-- A timer of a method goes off with the next step. -/
def Fires (client : Client σ β κ) (m : Machine σ β κ) (i : InstanceId) (name : String) : Prop :=
  ∃ c id s, m.source? c id = some s ∧ s.work.entry? = some (i, some name) ∧
    m.StartsWork client c id

/-- After so many steps, what was put on the stack first stands there still. -/
def Within (client : Client σ β κ) (m : Machine σ β κ) (frame : Frame β) (n : Nat) : Prop :=
  ∀ k, 0 < k → k ≤ n → .operation frame :: m.stack <:+ (m.after client k).stack

/-- What a step does for the timer of a debounced method. -/
inductive Paces (client : Client σ β κ) (m : Machine σ β κ) (i : InstanceId) (name : String)
    (d : Debounce) (callback : β) (e e' : Duties β) : Prop
  /-- Nothing. -/
  | keeps (hcall : ∀ args, m.control ≠ .perform (.call i name args))
      (hpending : (e'.burst name).pending = (e.burst name).pending)
      (hstarting : (m.step client).starting i name = m.starting i name)
  /-- A call runs at once, since no timer is pending. -/
  | leads (args : List Value) (hm : m.control = .perform (.call i name args))
      (hnone : (e.burst name).pending = none) (hpending : (e'.burst name).pending = none)
      (hstarting : (m.step client).starting i name =
        .startInterval i name d callback :: m.starting i name)
  /-- A call has the interval start anew. -/
  | delays (args : List Value) (hm : m.control = .perform (.call i name args))
      (hpending : (e'.burst name).pending.isSome = true)
      (hstarting : (m.step client).starting i name = m.starting i name)
  /-- After a run at once, the interval starts. -/
  | starts (f : Frame β) (hpending : (e'.burst name).pending.isSome = true)
      (hstarting : m.starting i name = f :: (m.step client).starting i name)
  /-- The timer goes off. -/
  | fires (hcall : ∀ args, m.control ≠ .perform (.call i name args))
      (h : m.Fires client i name) (hpending : (e'.burst name).pending = none)
      (hstarting : (m.step client).starting i name = m.starting i name)

end Machine

/-! ## What changes a burst -/

section

variable {client : Client σ β κ} {m : Machine σ β κ} {c : ContextId} {i : InstanceId}
  {name : String} {d : Debounce} {callback : β} {t t' : Timetable β} {e e' : Duties β}

/-- When a collected source starts, a timer of a method goes off exactly if it is the source. -/
theorem Machine.fires_iff_of_begins {id : SourceId} {ready : List SourceId} {worked mayStay : Bool}
    {rest : List (Frame β)} (hs : marks m.stack = .iteration c (id :: ready) worked :: rest)
    (hs' : marks (m.step client).stack =
      .sourceEnd c id mayStay :: .iteration c ready worked :: rest)
    {s : Source β} (hsource : m.source? c id = some s) :
    m.Fires client i name ↔ s.work.entry? = some (i, some name) := by
  have hruns (b : ContextId) : (m.step client).working b =
      if c = b then id :: m.working b else m.working b := by
    unfold working
    rw [(desk_of_marks hs b).2, (desk_of_marks hs' b).2]
    simp only [List.flatMap_cons, Frame.running_sourceEnd, Frame.running_iteration]
    split <;> rfl
  constructor
  · rintro ⟨b, id', s', hsource', hentry, hstarts⟩
    unfold StartsWork at hstarts
    rw [hruns b] at hstarts
    split at hstarts
    · next hcb =>
        subst hcb
        obtain ⟨rfl, -⟩ := List.cons.inj hstarts
        cases hsource.symm.trans hsource'
        exact hentry
    · exact absurd hstarts.symm (List.cons_ne_self _ _)
  · exact fun hentry => ⟨c, id, s, hsource, hentry, (hruns c).trans (if_pos rfl)⟩

/-- A turn that is no call of a method, starts none of its intervals, disposes nothing of it and has no
timer of it go off leaves its burst alone. -/
theorem Turn.sameBurst (h : Turn m (m.step client))
    (hcall : ∀ args, m.control ≠ .perform (.call i name args))
    (hstarting : (m.step client).starting i name = m.starting i name)
    (hdispose : m.control ≠ .perform (.dispose i)) (hfires : ¬ m.Fires client i name) :
    World.SameBurst i name m.world (m.step client).world := by
  have same {w : World β} (hw : World.Steady w (m.step client).world)
      (hn : w.nextInstance = m.world.nextInstance) (hd : ∀ i, w.duties? i = m.world.duties? i) :
      World.SameBurst i name m.world (m.step client).world :=
    (World.sameBurst_of_eq hd).steady (Nat.le_of_eq hn.symm) hw
  have other {j : InstanceId} {name' : String} {args : List Value}
      (hm : m.control = .perform (.call j name' args)) : (j, name') ≠ (i, name) := by
    intro heq
    cases heq
    exact hcall args hm
  cases h with
  | still hw hs hc => exact hw.sameBurst
  | opens config hw hs hc => exact same hw rfl fun _ => rfl
  | ticks b now hm hw hs hc => exact same hw rfl fun _ => rfl
  | attaches b x kind priority work hx hp hw hs hc => exact same hw rfl fun _ => rfl
  | detaches b x id hm hx hw hs hc => exact same hw rfl fun _ => rfl
  | creates ofClass b hw hs hc =>
      exact (World.sameBurst_addInstance _ ofClass b).steady (Nat.le_succ _) hw
  | disposes j hm hw hs hc =>
      refine (World.sameBurst_dispose _ ?_).steady (World.ages_dispose _ j).next hw
      rintro rfl
      exact hdispose hm
  | calls j name' args x f hm hx hd hf hw hs hc => exact hw.sameBurst
  | callsAtOnce j name' args x f debounce hm hx hd hf hr hw hs hc =>
      exact (World.sameBurst_setBurst _ (other hm) _).steady (Nat.le_refl _) hw
  | callsLater j name' args x f debounce hm hx hd hf hr hw hs hc =>
      refine ((World.sameBurst_setBurst _ (other hm) _).trans (Nat.le_refl _)
        (World.sameBurst_restartBurst _ (other hm) debounce f)).steady ?_ hw
      exact ((World.ages_setBurst _ j name' _).trans (World.ages_restartBurst _ j name' debounce f)).next
  | startsInterval j name' debounce f hw hs hc =>
      refine (World.sameBurst_restartBurst _ (fun heq => ?_) debounce f).steady
        (World.ages_restartBurst _ j name' debounce f).next hw
      -- an operation that is to start an interval of the method would be gone
      cases heq
      rw [Machine.starting_eq hs, filter_starts_self] at hstarting
      exact List.cons_ne_self _ _ hstarting.symm
  | constructs g rest j hg hw hs hs' hc => exact hw.sameBurst
  | schedules j x hx hw hs hc =>
      exact (World.sameBurst_scheduleHooks _ j x).steady (World.ages_scheduleHooks _ j x).next hw
  | collects b x worked hx hw hs hc => exact same hw rfl fun _ => rfl
  | skips b id ready worked rest hx hw hs hs' hc => exact hw.sameBurst
  | begins b id ready worked rest x y work hx hb hw hs hs' hc =>
      refine ((World.sameBurst_of_eq fun _ => rfl).trans (Nat.le_refl _)
        (World.sameBurst_startWork (m.world.setContext b y) b id fun hentry => ?_)).steady
        (World.ages_startWork (m.world.setContext b y) b id work).next hw
      obtain ⟨s, hsource, -, rfl, -⟩ := MainContext.of_beginRun hb
      exact hfires ((Machine.fires_iff_of_begins hs hs'
        ((Machine.source?_eq (World.timetable?_eq hx) id).trans hsource)).mpr hentry)
  | ends b id mayStay stays hstay hw hs hc => exact same hw rfl fun _ => rfl
  | closes b worked hw hs hc => exact hw.sameBurst

/-- A call that runs at once finds no timer, and leaves none. -/
theorem Burst.pending_record {burst : Burst} {trigger : Trigger}
    (h : burst.runsAtOnce trigger = true) (args : List Value) :
    burst.pending = none ∧ (burst.record trigger args).pending = none := by
  have hnone : burst.pending = none :=
    Option.isNone_iff_eq_none.mp ((Bool.and_eq_true _ _).mp h).2
  unfold record
  rw [h]
  exact ⟨hnone, hnone⟩

theorem called_of_callOf {call : Timed} (h : m.callOf c i name = [call]) :
    m.control = .perform (.call i name call.args) := by
  unfold Machine.callOf at h
  split at h
  · next j other args hm =>
      split at h
      · next hpair =>
          obtain ⟨rfl, rfl⟩ := hpair
          cases h
          exact hm
      · cases h
  · cases h

theorem not_called_of_callOf (h : m.callOf c i name = []) (args : List Value) :
    m.control ≠ .perform (.call i name args) := by
  intro hm
  unfold Machine.callOf at h
  rw [hm] at h
  simp at h

/-- A step that leaves the marks alone has no timer go off. -/
theorem Machine.not_fires (h : marks (m.step client).stack = marks m.stack) :
    ¬ m.Fires client i name := by
  rintro ⟨b, id, s, -, -, hstarts⟩
  refine List.cons_ne_self id (m.working b) (hstarts.symm.trans ?_)
  unfold working desk
  rw [h]

/-- Nor has one while nothing but runs at once of the method is in progress: only an iteration has
sources start. -/
theorem Machine.not_fires_of_starting (hreach : Reachable client m)
    (h : (marks m.stack).all (·.starts i name) = true) : ¬ m.Fires client i name := by
  rintro ⟨b, id, s, -, -, hstarts⟩
  obtain ⟨-, -, hwaiting, -⟩ := hstarts.attached hreach
  obtain ⟨f, hf, hid⟩ := List.mem_flatMap.mp (show id ∈ (marks m.stack).flatMap (·.waiting b) from
    hwaiting)
  have hstart := List.all_eq_true.mp h f hf
  cases f with
  | startInterval j other debounce g => cases hid
  | _ => cases hstart

/-- An instance that is alive after a step is not disposed by it. -/
theorem Machine.Serves.not_disposes (h : m.Serves c i name d callback t e)
    (h' : (m.step client).Serves c i name d callback t' e') :
    m.control ≠ .perform (.dispose i) := by
  intro hm
  obtain ⟨x, hx, rfl⟩ := Option.map_eq_some_iff.mp h.duties
  have hw : World.Steady (m.world.dispose i) (m.step client).world :=
    (Machine.follows_perform client hm).world.toSteady
  have hd := hw.duties_of_some h'.duties
  rw [World.duties?_dispose hx h.alive, if_pos rfl] at hd
  obtain rfl := Option.some.inj hd
  cases h'.alive

theorem World.frames_removeSource (w : World β) (c : ContextId) (id : SourceId) :
    (w.removeSource c id).frames = [] := by
  unfold removeSource
  split
  · rfl
  · split <;> rfl

/-- Every step does one of these things for the timer of a method. -/
theorem Machine.Paces.step (hreach : Reachable client m) (h : m.Serves c i name d callback t e)
    (h' : (m.step client).Serves c i name d callback t' e') :
    m.Paces client i name d callback e e' := by
  have kept (hcall : ∀ args, m.control ≠ .perform (.call i name args))
      (hstarting : (m.step client).starting i name = m.starting i name)
      (hfires : ¬ m.Fires client i name) : (e'.burst name).pending = (e.burst name).pending := by
    obtain ⟨e₀, he₀, hburst⟩ := (turn_step client m).sameBurst hcall hstarting (h.not_disposes h')
      hfires (hreach.tracked.created i e h.duties) e' h'.duties
    obtain rfl := Option.some.inj (h.duties.symm.trans he₀)
    rw [hburst]
  by_cases hremove : ∃ b id, m.control = .perform (.removeSource b id)
  · obtain ⟨b, id, hm⟩ := hremove
    have hf := Machine.follows_perform client hm
    have hstack : (m.step client).stack = m.stack := by
      rw [hf.stack, show (m.world.perform (.removeSource b id)).frames = [] from
        World.frames_removeSource _ b id]
      rfl
    have hcall : ∀ args, m.control ≠ .perform (.call i name args) := by
      intro args hc
      cases hm.symm.trans hc
    have hstarting : (m.step client).starting i name = m.starting i name := by
      unfold Machine.starting
      rw [hstack]
    exact .keeps hcall (kept hcall hstarting (not_fires (by rw [hstack]))) hstarting
  · cases service_step hreach h h' fun id hm => absurd ⟨c, id, hm⟩ hremove with
    | keeps hcall hrun hburst hstarting hwaits =>
        exact .keeps (not_called_of_callOf hcall) (by rw [hburst]) hstarting
    | runs args hcall hrun hbody hnow hat hburst hstarting =>
        obtain ⟨hpending, hrecord⟩ := Burst.pending_record hat args
        exact .leads args (called_of_callOf hcall) hpending (by rw [hburst, hrecord]) hstarting
    | delays args hcall hrun hnow hat hburst hstarting hwaits =>
        exact .delays args (called_of_callOf hcall) (by rw [hburst]; rfl) hstarting
    | starts debounce f hcall hrun hnow hburst hstarting hwaits =>
        exact .starts _ (by rw [hburst]; rfl) hstarting
    | ends s hcall hs hidle hwaiting hpending trigger f hwork hnow hburst hrun hbody hstarting =>
        have hnone : (e'.burst name).pending = none := by
          rw [hburst, Burst.pending_finish]
        refine .fires (not_called_of_callOf hcall) (by_contra fun hfires => ?_) hnone hstarting
        have hsame := kept (not_called_of_callOf hcall) hstarting hfires
        rw [hnone, hpending] at hsame
        cases hsame

/-! ## Calls that run at once -/

/-- A call of a debounced method of a live instance runs at once if the trigger is a leading one and no
timer is pending. -/
theorem Machine.leads_of_not_pending {args : List Value}
    (hm : m.control = .perform (.call i name args)) {x : Instance β}
    (hx : m.world.instance? i = some x) (halive : x.disposed = false)
    (hmethod : x.ofClass.findMethod? name = some ⟨callback, some d⟩)
    (hleading : d.trigger.isLeading = true) (hnone : (x.burst name).pending = none) :
    m.Leads client i name d callback := by
  have hf := Machine.follows_perform client hm
  have hat : (x.burst name).runsAtOnce d.trigger = true := by
    unfold Burst.runsAtOnce
    rw [hleading, hnone]
    rfl
  have hcall : (m.world.call i name args).control =
      .invoke callback { role := .method name, self := some i, args } ∧
        (m.world.call i name args).frames = [.startInterval i name d callback] := by
    unfold World.call
    simp only [hx, halive, hmethod, hat, Bool.false_eq_true, if_false, if_true]
    exact ⟨rfl, rfl⟩
  refine ⟨⟨args, hm, hf.control.trans hcall.1⟩, hf.stack.trans ?_⟩
  rw [show (m.world.perform (.call i name args)).frames = _ from hcall.2]
  rfl

/-- What a call that runs at once finds. -/
theorem Machine.Leads.serves (h : m.Leads client i name d callback)
    (hexists : ∀ e, m.world.duties? i = some e → m.world.timetable? e.context ≠ none) :
    ∃ t e, m.Serves e.context i name d callback t e ∧ d.trigger.isLeading = true ∧
      (e.burst name).pending = none := by
  obtain ⟨⟨args, hm, -⟩, hstack⟩ := h
  have hf := Machine.follows_perform client hm
  have hframes : (m.world.call i name args).frames = [.startInterval i name d callback] := by
    have hlayers : [.operation (.startInterval i name d callback)] ++ m.stack =
        (m.world.call i name args).frames.map .operation ++ m.stack := hstack.symm.trans hf.stack
    obtain ⟨f, hframes, hlayer⟩ :=
      List.map_eq_singleton_iff.mp (List.append_cancel_right hlayers).symm
    cases hlayer
    exact hframes
  unfold World.call at hframes
  cases hx : m.world.instance? i with
  | none =>
      rw [hx] at hframes
      cases hframes
  | some x =>
      rw [hx] at hframes
      obtain ⟨t, ht⟩ := Option.ne_none_iff_exists'.mp (hexists _ (World.duties?_eq hx))
      dsimp only at hframes
      split at hframes
      · cases hframes
      · next halive =>
          split at hframes
          · cases hframes
          · cases hframes
          · next callback' debounce hmethod =>
              split at hframes
              · next hat =>
                  cases hframes
                  refine ⟨t, x.duties, ⟨ht, World.duties?_eq hx, rfl, hmethod,
                    Bool.eq_false_iff.mpr halive⟩,
                    ((Bool.and_eq_true _ _).mp hat).1, (Burst.pending_record hat []).1⟩
              · cases hframes

/-! ## Runs of steps -/

/-- An instance stays in its context and of its class. -/
theorem Machine.Serves.ages_after (hreach : Reachable client m)
    (h : m.Serves c i name d callback t e) {n : Nat} {e' : Duties β}
    (he' : (m.after client n).world.duties? i = some e') : e.Ages e' := by
  obtain ⟨e₀, he₀, hages⟩ := ((Machine.ages_after client m (Nat.zero_le n)).ages i e'
    he').resolve_right (Nat.not_le_of_lt (hreach.tracked.created i e h.duties))
  obtain rfl := Option.some.inj (h.duties.symm.trans he₀)
  exact hages

/-- A method of an instance that is alive later was served all the time. -/
theorem Machine.Serves.before (hreach : Reachable client m) (h : m.Serves c i name d callback t e)
    {n : Nat} (halive : ∃ e, (m.after client n).world.duties? i = some e ∧ e.disposed = false)
    {k : Nat} (hk : k ≤ n) : ∃ t e, (m.after client k).Serves c i name d callback t e := by
  obtain ⟨eₙ, heₙ, halive⟩ := halive
  have hlt : i.number < (m.after client k).world.nextInstance :=
    Nat.lt_of_lt_of_le (hreach.tracked.created i e h.duties)
      (Machine.ages_after client m (Nat.zero_le k)).next
  obtain ⟨eₖ, heₖ, hlater⟩ := ((Machine.ages_after client m hk).ages i eₙ heₙ).resolve_right
    (Nat.not_le_of_lt hlt)
  have hearlier := h.ages_after hreach heₖ
  obtain ⟨u, hu⟩ := Option.ne_none_iff_exists'.mp
    (timetable?_after_ne_none client (by rw [h.timetable]; exact nofun) k)
  refine ⟨u, eₖ, hu, heₖ, hearlier.context.trans h.context, ?_, ?_⟩
  · rw [hearlier.ofClass]
    exact h.method
  · cases hd : eₖ.disposed with
    | false => rfl
    | true => cases halive.symm.trans (hlater.disposed hd)

/-- As long as no timer of a method goes off, a pending one stays pending. -/
theorem Machine.Paces.isSome (h : m.Paces client i name d callback e e')
    (hfires : ¬ m.Fires client i name) (hpending : (e.burst name).pending.isSome = true) :
    (e'.burst name).pending.isSome = true := by
  cases h with
  | keeps hcall hsame hstarting => rwa [hsame]
  | leads args hm hnone hpending' hstarting =>
      rw [hnone] at hpending
      cases hpending
  | delays args hm hsome hstarting => exact hsome
  | starts f hsome hstarting => exact hsome
  | fires hcall hgoes hpending' hstarting => exact absurd hgoes hfires

theorem Machine.Within.succ {f : Frame β} {k : Nat} (h : m.Within client f k)
    (hs : .operation f :: m.stack <:+ (m.after client (k + 1)).stack) :
    m.Within client f (k + 1) := by
  intro j hpos hj
  rcases Nat.lt_or_eq_of_le hj with hlt | rfl
  · exact h j hpos (Nat.le_of_lt_succ hlt)
  · exact hs

theorem Machine.Leads.within_one (h : m.Leads client i name d callback) :
    m.Within client (.startInterval i name d callback) 1 :=
  Within.succ (fun _ hpos hj => absurd hpos (Nat.not_lt_of_le hj)) (h.stack ▸ List.suffix_rfl)

/-- A run at once is in progress, or its timer is pending. -/
theorem Machine.Leads.within_or_pending (hreach : Reachable client m)
    (hlead : m.Leads client i name d callback) (h : m.Serves c i name d callback t e) {n : Nat}
    (halive : ∃ e, (m.after client n).world.duties? i = some e ∧ e.disposed = false)
    (hquiet : ∀ k, 0 < k → k < n → ¬ (m.after client k).Fires client i name) {k : Nat}
    (hk : k + 1 ≤ n) :
    m.Within client (.startInterval i name d callback) (k + 1) ∨
      ∃ e, (m.after client (k + 1)).world.duties? i = some e ∧
        (e.burst name).pending.isSome = true := by
  induction k with
  | zero => exact .inl hlead.within_one
  | succ k ih =>
      obtain ⟨u, eₖ, hserves⟩ := h.before hreach halive (Nat.le_of_succ_le hk)
      obtain ⟨u', eₖ', hserves'⟩ := h.before hreach halive hk
      rcases ih (Nat.le_of_succ_le hk) with hwithin | ⟨e', he', hpending⟩
      · obtain ⟨above, habove⟩ := hwithin (k + 1) (Nat.succ_pos k) (Nat.le_refl _)
        rcases stays_or_resumes client habove.symm with ⟨above', hs⟩ | ⟨reply, -, -, hf⟩
        · exact .inl (hwithin.succ ⟨above', hs.symm⟩)
        · -- the run has ended, and the interval starts
          obtain ⟨x, hx, rfl⟩ := Option.map_eq_some_iff.mp hserves.duties
          have hcontext : x.context = c := hserves.context
          obtain ⟨hduties, -⟩ := World.restartBurst_views hx (t := u)
            (hcontext ▸ hserves.timetable) name d callback
          have hw : World.Steady ((m.after client (k + 1)).world.restartBurst i name d callback)
              (m.after client (k + 2)).world := hf.world.toSteady
          refine .inr ⟨eₖ', hserves'.duties, ?_⟩
          rw [hduties eₖ' (hw.duties_of_some hserves'.duties)]
          rfl
      · obtain rfl := Option.some.inj (hserves.duties.symm.trans he')
        exact .inr ⟨eₖ', hserves'.duties, (Paces.step (hreach.after _) hserves hserves').isSome
          (hquiet (k + 1) (Nat.succ_pos k) hk) hpending⟩

/-- What is in progress shows among the operations that are to start an interval. -/
theorem Machine.starting_of_suffix {n : Machine σ β κ}
    (hs : .operation (.startInterval i name d callback) :: m.stack <:+ n.stack) :
    ∃ above, n.starting i name =
      above ++ .startInterval i name d callback :: m.starting i name := by
  obtain ⟨above, habove⟩ := hs
  refine ⟨(marks above).filter (·.starts i name), ?_⟩
  unfold starting
  rw [← habove, marks_append, List.filter_append]
  exact congrArg _ (filter_starts_self _ _ _)

/-- When a run at once begins, no timer of the method is pending. -/
theorem Machine.Leads.not_pending_step (hreach : Reachable client m)
    (hlead : m.Leads client i name d callback) (h : m.Serves c i name d callback t e)
    (h' : (m.step client).Serves c i name d callback t' e') :
    (e'.burst name).pending = none ∧
      ((m.step client).starting i name).length = (m.starting i name).length + 1 := by
  obtain ⟨⟨args, hm, -⟩, hstack⟩ := hlead
  have hmore : ((m.step client).starting i name).length = (m.starting i name).length + 1 := by
    unfold starting
    rw [hstack, marks_operation]
    simp [Frame.isMark, Frame.starts]
  refine ⟨?_, hmore⟩
  -- of all that a step may do, only a call that runs at once adds such an operation
  cases Paces.step hreach h h' with
  | keeps hno hpending hstarting => exact absurd hm (hno args)
  | leads args hm hnone hpending hstarting => exact hpending
  | delays args hm hpending hstarting =>
      rw [hstarting] at hmore
      omega
  | starts f hpending hstarting =>
      rw [hstarting, List.length_cons] at hmore
      omega
  | fires hno hfires hpending hstarting => exact hpending

/-- Within a run at once, no timer of the method is pending until the method is called again. -/
theorem Machine.Leads.not_pending (hreach : Reachable client m)
    (hlead : m.Leads client i name d callback) (h : m.Serves c i name d callback t e) {n : Nat}
    (halive : ∃ e, (m.after client n).world.duties? i = some e ∧ e.disposed = false)
    (hwithin : m.Within client (.startInterval i name d callback) n)
    (hcall : ∀ k args, 0 < k → k < n → (m.after client k).control ≠ .perform (.call i name args))
    {k : Nat} (hk : k + 1 ≤ n) :
    (∀ e, (m.after client (k + 1)).world.duties? i = some e → (e.burst name).pending = none) ∧
      ((m.after client (k + 1)).starting i name).length = (m.starting i name).length + 1 := by
  induction k with
  | zero =>
      obtain ⟨u, e', hserves⟩ := h.before hreach halive hk
      obtain ⟨hnone, hmore⟩ := hlead.not_pending_step hreach h hserves
      refine ⟨fun e₁ he₁ => ?_, hmore⟩
      obtain rfl := Option.some.inj (hserves.duties.symm.trans he₁)
      exact hnone
  | succ k ih =>
      obtain ⟨hnone, hlength⟩ := ih (Nat.le_of_succ_le hk)
      obtain ⟨u, eₖ, hserves⟩ := h.before hreach halive (Nat.le_of_succ_le hk)
      obtain ⟨u', eₖ', hserves'⟩ := h.before hreach halive hk
      have hnone := hnone eₖ hserves.duties
      have only {P : Duties β → Prop} (hP : P eₖ') :
          ∀ e, (m.after client (k + 2)).world.duties? i = some e → P e := by
        intro e he
        obtain rfl := Option.some.inj (hserves'.duties.symm.trans he)
        exact hP
      cases Paces.step (hreach.after _) hserves hserves' with
      | keeps hno hpending hstarting =>
          exact ⟨only (hpending.trans hnone), (congrArg List.length hstarting).trans hlength⟩
      | leads args hm hnone' hpending hstarting =>
          exact absurd hm (hcall (k + 1) args (Nat.succ_pos k) hk)
      | delays args hm hpending hstarting => exact absurd hm (hcall (k + 1) args (Nat.succ_pos k) hk)
      | starts f hpending hstarting =>
          -- the operation of the run itself would be gone
          obtain ⟨above, habove⟩ := starting_of_suffix (hwithin (k + 2) (Nat.succ_pos _) hk)
          have hbefore := congrArg List.length hstarting
          have hafter := congrArg List.length habove
          simp only [List.length_append, List.length_cons] at hbefore hafter
          change _ = ((m.after client (k + 2)).starting i name).length + 1 at hbefore
          omega
      | fires hno hfires hpending hstarting =>
          exact ⟨only hpending, (congrArg List.length hstarting).trans hlength⟩

end

/-! ## The contract -/

/-- **Leading runs nest.** After a call of a debounced method has run at once, in whatever state and
whatever callbacks do,

* as long as no timer of the method goes off, the method runs at once again only within that run, that
  is while it is in progress; so a call from outside of all runs at once of the method does so only
  after the timer has gone off;
* but within the run the next call runs at once too, as long as the instance is alive. -/
theorem leading_runs_nest (client : Client σ β κ) (m : Machine σ β κ) (hreach : Reachable client m)
    (i : InstanceId) (name : String) (d : Debounce) (callback : β)
    (hlead : m.Leads client i name d callback)
    (hexists : ∀ e, m.world.duties? i = some e → m.world.timetable? e.context ≠ none) (n : Nat)
    (hpos : 0 < n) :
    (∀ d' callback', (m.after client n).Leads client i name d' callback' →
      ((∀ k, 0 < k → k < n → ¬ (m.after client k).Fires client i name) →
        m.Within client (.startInterval i name d callback) n) ∧
      ((m.after client n).starting i name = [] →
        ∃ k, 0 < k ∧ k < n ∧ (m.after client k).Fires client i name)) ∧
    (∀ args, (m.after client n).control = .perform (.call i name args) →
      m.Within client (.startInterval i name d callback) n →
      (∀ k args, 0 < k → k < n → (m.after client k).control ≠ .perform (.call i name args)) →
      (∃ e, (m.after client n).world.duties? i = some e ∧ e.disposed = false) →
      (m.after client n).Leads client i name d callback) := by
  obtain ⟨t, e, hserves, hleading, -⟩ := hlead.serves hexists
  obtain ⟨n, rfl⟩ := Nat.exists_eq_succ_of_ne_zero (Nat.ne_of_gt hpos)
  constructor
  · intro d' callback' hlead'
    obtain ⟨t', e', hserves', -, hnone⟩ := hlead'.serves fun e' he' => by
      rw [(hserves.ages_after hreach he').context]
      exact Machine.timetable?_after_ne_none client (by rw [hserves.timetable]; exact nofun) _
    have hwithin (hquiet : ∀ k, 0 < k → k < n + 1 → ¬ (m.after client k).Fires client i name) :
        m.Within client (.startInterval i name d callback) (n + 1) := by
      rcases hlead.within_or_pending hreach hserves ⟨e', hserves'.duties, hserves'.alive⟩ hquiet
        (Nat.le_refl _) with h | ⟨e'', he'', hpending⟩
      · exact h
      · obtain rfl := Option.some.inj (hserves'.duties.symm.trans he'')
        rw [hnone] at hpending
        cases hpending
    refine ⟨hwithin, fun hnil => by_contra fun hnever => ?_⟩
    obtain ⟨above, habove⟩ := Machine.starting_of_suffix
      (hwithin (fun k hk hkn hfires => hnever ⟨k, hk, hkn, hfires⟩) (n + 1) hpos (Nat.le_refl _))
    rw [hnil] at habove
    simp at habove
  · intro args hm hwithin hcall halive
    obtain ⟨u, e', hserves'⟩ := hserves.before hreach halive (Nat.le_refl _)
    have hnone := (hlead.not_pending hreach hserves halive hwithin hcall (Nat.le_refl _)).1 e'
      hserves'.duties
    obtain ⟨x, hx, rfl⟩ := Option.map_eq_some_iff.mp hserves'.duties
    exact Machine.leads_of_not_pending hm hx hserves'.alive hserves'.method hleading hnone

/-- A program that calls a leading method, lets its interval pass, and calls it again. The body calls
the method once more when it runs for the first time. -/
def echoer : Client Nat Nat (Routine Nat) where
  start _ runs callback _ :=
    match callback with
    | 0 => (runs, { acts := [.command (.newContext { clock := .manual }),
        .command (.construct
          { ofClass := .simple
              (NameTable.empty.insert "ping" ⟨1, some { interval := 10, trigger := .leading }⟩) [] none
            context := ⟨0⟩ }),
        .command (.call ⟨1⟩ "ping" []), .command (.advance ⟨0⟩ 20),
        .command (.call ⟨1⟩ "ping" [])] })
    | _ => (runs + 1, { acts := if runs = 0 then [.command (.call ⟨1⟩ "ping" [])] else [] })
  resume _ runs rest _ :=
    match rest.acts with
    | .command command :: acts => (runs, .command command { rest with acts })
    | _ => (runs, .finish rest.outcome)
  report runs _ := runs
  keeps _ := [.object ⟨1⟩]
  holds _ := []

/-- A state of the run of `echoer`. -/
def echoerAfter (n : Nat) : Machine Nat Nat (Routine Nat) :=
  (Machine.initial 0 0).after echoer n

/-- Whether a call of the method of `echoer` is about to run at once. -/
theorem echoer_leads {n : Nat}
    (hcall : (echoerAfter n).callOf ⟨0⟩ ⟨1⟩ "ping" = [⟨(echoerAfter n).time ⟨0⟩, []⟩])
    (hready : ((echoerAfter n).world.instance? ⟨1⟩).map (fun x =>
      (x.disposed, (x.burst "ping").pending,
        (x.ofClass.findMethod? "ping").map fun f => (f.callback, f.debounce))) =
      some (false, none, some (1, some { interval := 10, trigger := .leading }))) :
    (echoerAfter n).Leads echoer ⟨1⟩ "ping" { interval := 10, trigger := .leading } 1 := by
  obtain ⟨x, hx, hall⟩ := Option.map_eq_some_iff.mp hready
  simp only [Prod.mk.injEq] at hall
  obtain ⟨halive, hnone, hmethod⟩ := hall
  obtain ⟨⟨callback, debounce⟩, hfound, hpair⟩ := Option.map_eq_some_iff.mp hmethod
  cases hpair
  exact Machine.leads_of_not_pending (called_of_callOf hcall) hx halive hfound rfl hnone

set_option maxRecDepth 100000 in
/-- The second run at once of `echoer` is within the first; before the third, the timer went off. -/
theorem leading_runs_nest_echoer :
    (echoerAfter 8).Leads echoer ⟨1⟩ "ping" { interval := 10, trigger := .leading } 1 ∧
      (echoerAfter 11).Leads echoer ⟨1⟩ "ping" { interval := 10, trigger := .leading } 1 ∧
      (echoerAfter 8).Within echoer
        (.startInterval ⟨1⟩ "ping" { interval := 10, trigger := .leading } 1) 3 ∧
      (echoerAfter 32).Leads echoer ⟨1⟩ "ping" { interval := 10, trigger := .leading } 1 ∧
      ∃ k, 0 < k ∧ k < 24 ∧ (echoerAfter (8 + k)).Fires echoer ⟨1⟩ "ping" := by
  have hreach : Reachable echoer (echoerAfter 8) := (Reachable.initial 0 0).after 8
  have h₁ := echoer_leads (n := 8) (by decide +kernel) (by decide +kernel)
  have h₂ := echoer_leads (n := 11) (by decide +kernel) (by decide +kernel)
  have h₃ := echoer_leads (n := 32) (by decide +kernel) (by decide +kernel)
  have hcontext : ((echoerAfter 8).world.instance? ⟨1⟩).map (fun x =>
      ((echoerAfter 8).world.context? x.context).isSome) = some true := by decide +kernel
  have hexists : ∀ e, (echoerAfter 8).world.duties? ⟨1⟩ = some e →
      (echoerAfter 8).world.timetable? e.context ≠ none := by
    intro e he
    obtain ⟨x, hx, rfl⟩ := Option.map_eq_some_iff.mp he
    rw [hx] at hcontext
    exact fun hnone => Option.isSome_iff_ne_none.mp (Option.some.inj hcontext)
      (World.timetable?_eq_none.mp hnone)
  have hquiet : ∀ k, 0 < k → k < 3 →
      ¬ ((echoerAfter 8).after echoer k).Fires echoer ⟨1⟩ "ping" := by
    have hmarks : ∀ k, k < 3 →
        (marks ((echoerAfter 8).after echoer k).stack).all (·.starts ⟨1⟩ "ping") = true := by
      decide +kernel
    exact fun k _ hk => Machine.not_fires_of_starting (hreach.after k) (hmarks k hk)
  have hnone : ((echoerAfter 32).starting ⟨1⟩ "ping").length = 0 := by decide +kernel
  obtain ⟨hnested, -⟩ := leading_runs_nest echoer (echoerAfter 8) hreach ⟨1⟩ "ping" _ 1 h₁ hexists 3
    (by decide)
  obtain ⟨houtside, -⟩ := leading_runs_nest echoer (echoerAfter 8) hreach ⟨1⟩ "ping" _ 1 h₁ hexists 24
    (by decide)
  obtain ⟨k, hpos, hk, hfires⟩ := (houtside _ _ h₃).2 (List.eq_nil_of_length_eq_zero hnone)
  refine ⟨h₁, h₂, (hnested _ _ h₂).1 hquiet, h₃, k, hpos, hk, ?_⟩
  have hat : echoerAfter (8 + k) = (echoerAfter 8).after echoer k := Machine.after_add echoer _ 8 k
  rw [hat]
  exact hfires

set_option maxRecDepth 100000 in
/-- The body of `echoer` runs at once twice in one burst: the timer does not go off in between. -/
theorem leads_within_itself :
    (echoerAfter 8).Leads echoer ⟨1⟩ "ping" { interval := 10, trigger := .leading } 1 ∧
      (echoerAfter 11).Leads echoer ⟨1⟩ "ping" { interval := 10, trigger := .leading } 1 ∧
      ∀ k, k < 12 → 8 ≤ k → ¬ (echoerAfter k).Fires echoer ⟨1⟩ "ping" := by
  have hmarks : ∀ k, k < 12 → 8 ≤ k →
      (marks (echoerAfter k).stack).all (·.starts ⟨1⟩ "ping") = true := by decide +kernel
  exact ⟨echoer_leads (by decide +kernel) (by decide +kernel),
    echoer_leads (by decide +kernel) (by decide +kernel), fun k hk hlow =>
      Machine.not_fires_of_starting ((Reachable.initial 0 0).after k) (hmarks k hk hlow)⟩

end ObjectSystem
