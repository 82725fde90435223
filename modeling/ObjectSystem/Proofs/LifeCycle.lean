import Mathlib
import ObjectSystem.Proofs.Accuracy
import ObjectSystem.Proofs.Deadlines
import ObjectSystem.Proofs.Timeouts

/-!
# The life of a source

A source is attached, starts when an iteration gives it its turn, ends, and some day is removed or
does not stay. At the same time it may be on the lists of iterations that have not come to it yet;
nothing of that kind brings it back.

A source *works* from its start until the operation that waits for it has settled what becomes of it
(`Machine.working`). The desk of its context says what a start takes (`Desk.Move.begins_of_new`), and
that a source that is gone stays gone (`Machine.Gone.step`): its identity has been given and is never
given again. `source_life_cycle` is the contract of sources.
-/

namespace ObjectSystem

variable {σ β κ : Type}

open Machine (Reachable marks)

namespace Machine

/-! ## What happens to a source -/

/-- The sources of a context that work, the innermost first. -/
def working (m : Machine σ β κ) (c : ContextId) : List SourceId :=
  (m.desk c).running.map (·.1)

/-- A source starts to work with the next step. -/
def StartsWork (client : Client σ β κ) (m : Machine σ β κ) (c : ContextId) (id : SourceId) : Prop :=
  (m.step client).working c = id :: m.working c

/-- The source that is to be removed in this moment. -/
def removal? (m : Machine σ β κ) : Option (ContextId × SourceId) :=
  match m.control with
  | .perform (.removeSource c id) => some (c, id)
  | _ => none

/-- A source is removed with the next step, and whoever asked for that hears that it is done. -/
def Removes (client : Client σ β κ) (m : Machine σ β κ) (c : ContextId) (id : SourceId) : Prop :=
  m.removal? = some (c, id) ∧ (m.step client).control = .deliver .done

/-- A source has worked and does not stay. -/
def Breaks (m : Machine σ β κ) (c : ContextId) (id : SourceId) : Prop :=
  ∃ mayStay reply stack, m.stack = .operation (.sourceEnd c id mayStay) :: stack ∧
    m.control = .deliver reply ∧
    ∀ outcome, reply = .returned outcome → (mayStay && outcome.stays) = false

/-- The identity has been given, and no source has it any more. -/
def Gone (m : Machine σ β κ) (c : ContextId) (id : SourceId) : Prop :=
  ∃ t, m.world.timetable? c = some t ∧ t.source? id = none ∧ id.number < t.nextSource

end Machine

theorem Machine.control_of_removal? {m : Machine σ β κ} {c : ContextId} {id : SourceId}
    (h : m.removal? = some (c, id)) : m.control = .perform (.removeSource c id) := by
  unfold removal? at h
  split at h
  · next hm =>
      cases h
      exact hm
  · cases h

theorem Timetable.source?_detach (t : Timetable β) (id : SourceId) :
    (t.detach id).source? id = none := by
  refine List.find?_eq_none.mpr fun s hs => ?_
  simpa using (List.mem_filter.mp hs).2

/-- The end of work whose source does not stay. -/
theorem World.endSource_of_breaks {w : World β} {c : ContextId} {id : SourceId} {mayStay : Bool}
    {reply : Reply β}
    (h : ∀ outcome, reply = .returned outcome → (mayStay && outcome.stays) = false) :
    w.endSource c id mayStay reply = .proceed (w.modifyContext c (·.endRun id false)) [] := by
  unfold endSource
  cases reply with
  | returned outcome =>
      dsimp only
      rw [h outcome rfl]
  | _ => rfl

/-! ## Starts -/

/-- A source that works after a move and not before has started with it: it waited for its turn, and
was attached and idle. -/
theorem Desk.Move.begins_of_new {ticking : Prop} {d d' : Desk β} (hm : Move ticking d d')
    {id : SourceId} (hnew : id ∈ d'.running.map (·.1)) (hold : id ∉ d.running.map (·.1)) :
    ∃ t s, d.timetable = some t ∧ t.source? id = some s ∧ id ∈ d.waiting ∧
      d'.running = (id, s.work.mayStay) :: d.running := by
  have same (h : d'.running = d.running) : False := by
    rw [h] at hnew
    exact hold hnew
  cases hm with
  | edits ht hw hr => exact (same hr).elim
  | opens config ht ht' hw hr => exact (same hr).elim
  | drops ht ht' hw hr => exact absurd ((hr.map _).subset hnew) hold
  | ticks t now htick ht ht' hw hr => exact (same hr).elim
  | collects t ht ht' hw hr => exact (same hr).elim
  | skips t id' ht ht' hid hw hr => exact (same hr).elim
  | begins t id' s ht ht' hs hrun hw hr =>
      rw [hr, List.map_cons, List.mem_cons] at hnew
      obtain rfl := hnew.resolve_right hold
      exact ⟨t, s, ht, hs, hw ▸ List.mem_cons_self, hr⟩
  | ends t id' mayStay stays hstay ht ht' hw hr =>
      rw [hr, List.map_cons] at hold
      exact absurd (List.mem_cons_of_mem _ hnew) hold

namespace Machine

variable {client : Client σ β κ} {m : Machine σ β κ} {c : ContextId} {id : SourceId}

/-- A source does not start while it works. -/
theorem StartsWork.not_working (hreach : Reachable client m) (h : m.StartsWork client c id) :
    id ∉ m.working c := by
  have hnodup : ((m.step client).working c).Nodup := by
    cases ht : (m.step client).world.timetable? c with
    | none =>
        unfold working
        rw [((hreach.step.desk c).absent ht).2]
        exact .nil
    | some t => exact ((hreach.step.desk c).present t ht).once
  rw [h] at hnodup
  exact (List.nodup_cons.mp hnodup).1

theorem StartsWork.began (hreach : Reachable client m) (h : m.StartsWork client c id) :
    ∃ t s, m.world.timetable? c = some t ∧ t.source? id = some s ∧ id ∈ (m.desk c).waiting ∧
      ((m.step client).desk c).running = (id, s.work.mayStay) :: (m.desk c).running :=
  ((turn_step client m).desk c).begins_of_new
    (show id ∈ (m.step client).working c from h ▸ List.mem_cons_self) (h.not_working hreach)

/-- A source that starts is attached. -/
theorem StartsWork.attached (hreach : Reachable client m) (h : m.StartsWork client c id) :
    ∃ s, m.source? c id = some s ∧ id ∈ (m.desk c).waiting ∧
      ((m.step client).desk c).running = (id, s.work.mayStay) :: (m.desk c).running := by
  obtain ⟨t, s, ht, hs, hwait, hrun⟩ := h.began hreach
  exact ⟨s, (source?_eq ht id).trans hs, hwait, hrun⟩

/-- A callback is invoked in the role of a source only as that source starts. -/
theorem startsWork_of_invoke (hreach : Reachable client m) {callback : β} {inv : Invocation}
    (hc : (m.step client).control = .invoke callback inv) (hrole : inv.role = .source c id) :
    m.StartsWork client c id := by
  obtain ⟨hidle, hbusy⟩ := starts_of_invoke (n := 0) hreach hc hrole
  obtain ⟨s, hs, hold⟩ := Option.map_eq_some_iff.mp hidle
  obtain ⟨s', hs', hrun⟩ := Option.map_eq_some_iff.mp hbusy
  obtain ⟨t, ht, hfound⟩ := timetable_of_source? hs
  obtain ⟨t', ht', hfound'⟩ := timetable_of_source? hs'
  obtain ⟨hmem, hid⟩ := Timetable.mem_of_source? hfound
  obtain ⟨hmem', hid'⟩ := Timetable.mem_of_source? hfound'
  -- the flag of a source tells whether it works
  have hnew : id ∈ (m.step client).working c := by
    rw [← hid']
    exact (((hreach.step.desk c).present t' ht').runs s' hmem').mp hrun
  have hnot : id ∉ m.working c := by
    intro hin
    rw [← hid] at hin
    have hworks := (((hreach.desk c).present t ht).runs s hmem).mpr hin
    cases hold.symm.trans hworks
  obtain ⟨-, s, -, -, -, hrunning⟩ := ((turn_step client m).desk c).begins_of_new hnew hnot
  unfold StartsWork working
  rw [hrunning, List.map_cons]

/-! ## Callbacks of sources -/

theorem suspended_reclaim (client : Client σ β κ) (before m : Machine σ β κ) :
    (reclaim client before m).suspended = m.suspended := by
  refine reclaim_keeps client before m (P := (·.suspended = m.suspended)) rfl
    fun before m' h => Eq.trans ?_ h
  unfold reclaimOnce
  dsimp only
  split <;> rfl

/-- A callback that is suspended is that of a task. -/
theorem suspended_move {stack : List (Layer β κ)} {inv : Invocation} {next : Move β κ}
    {s : Suspended κ} (hs : s ∈ (m.move stack inv next).suspended) :
    s ∈ m.suspended ∨ ∃ c task, s.invocation.role = .task c task := by
  unfold move at hs
  split at hs
  · exact .inl hs
  · exact .inl hs
  · unfold awaitEvent at hs
    dsimp only at hs
    split at hs
    · next c task hrole =>
        split at hs
        · exact .inl hs
        · rcases List.mem_append.mp hs with hs | hs
          · exact .inl hs
          · rw [List.mem_singleton.mp hs]
            exact .inr ⟨c, task, hrole⟩
    · exact .inl hs
  · exact .inl hs

theorem Reachable.suspended (h : Reachable client m) :
    ∀ s ∈ m.suspended, ∃ c task, s.invocation.role = .task c task := by
  induction h with
  | initial state callback => exact fun s hs => (by cases hs)
  | @step m _ ih =>
      intro s hs
      rw [Machine.step, suspended_reclaim] at hs
      suffices s ∈ m.suspended ∨ ∃ c task, s.invocation.role = .task c task from
        this.elim (ih s) id
      unfold advance at hs
      split at hs
      · exact .inl hs
      · exact .inl hs
      · unfold continueTask at hs
        dsimp only at hs
        split at hs
        · exact .inl hs
        · exact .inl (List.mem_of_mem_filter hs)
      · split at hs
        · exact .inl hs
        · have hmoved := suspended_move hs
          exact hmoved
        · exact .inl hs

/-- A callback that goes on after having been suspended is that of a task. -/
theorem role_of_continueTask (hreach : Reachable client m) {task : TaskId} {outcome : EventOutcome}
    (hm : m.control = .continueTask c task outcome) {rest : κ} {inv : Invocation}
    (hs : (m.step client).stack = .callback rest inv :: m.stack) :
    ∃ c task, inv.role = .task c task := by
  rw [stack_step] at hs
  unfold advance continueTask at hs
  rw [hm] at hs
  dsimp only at hs
  split at hs
  · exact absurd hs (List.cons_ne_self _ _).symm
  · next s hfind =>
      obtain ⟨hlayer, -⟩ := List.cons.inj hs
      cases hlayer
      exact hreach.suspended s (List.mem_of_find?_eq_some hfind)

/-- While a callback in the role of a source is on the stack, the source works. -/
def Seated : List (Layer β κ) → Prop
  | [] => True
  | .operation _ :: stack => Seated stack
  | .callback _ inv :: stack =>
    (∀ c id, inv.role = .source c id →
      id ∈ ((marks stack).flatMap (·.running c)).map (·.1)) ∧ Seated stack

theorem seated_append (frames : List (Frame β)) {stack : List (Layer β κ)} (h : Seated stack) :
    Seated (frames.map .operation ++ stack) := by
  induction frames with
  | nil => exact h
  | cons f frames ih => exact ih

theorem Seated.works {stack : List (Layer β κ)} (h : Seated stack) {rest : κ} {inv : Invocation}
    (hmem : .callback rest inv ∈ stack) (hrole : inv.role = .source c id) :
    id ∈ ((marks stack).flatMap (·.running c)).map (·.1) := by
  induction stack with
  | nil => cases hmem
  | cons layer stack ih =>
      cases layer with
      | callback rest' inv' =>
          rcases List.mem_cons.mp hmem with heq | hmem
          · cases heq
            exact h.1 c id hrole
          · exact ih h.2 hmem
      | operation f =>
          have hin := ih h ((List.mem_cons.mp hmem).resolve_left nofun)
          rw [marks_operation]
          split
          · rw [List.flatMap_cons, List.map_append]
            exact List.mem_append_right _ hin
          · exact hin

theorem Reachable.seated (h : Reachable client m) : Seated m.stack ∧
    ∀ callback inv c id, m.control = .invoke callback inv → inv.role = .source c id →
      id ∈ m.working c := by
  induction h with
  | initial state callback =>
      refine ⟨trivial, fun _ inv c id hc hrole => ?_⟩
      cases hc
      cases hrole
  | @step m hreach ih =>
      refine ⟨?_, fun callback inv c id hc hrole => ?_⟩
      · cases moved_step client m with
        | performs command hm h => exact h.stack ▸ seated_append _ ih.1
        | resumes frame reply stack hm hs h =>
            rw [hs] at ih
            exact h.stack ▸ seated_append _ ih.1
        | enters rest inv reply hm hw hs hc =>
            rw [hs]
            refine ⟨fun c id hrole => ?_, ih.1⟩
            rcases hm with ⟨callback, hm⟩ | ⟨d, task, outcome, hm⟩
            · exact ih.2 callback inv c id hm hrole
            · -- only tasks go on after having been suspended
              obtain ⟨_, _, htask⟩ := role_of_continueTask hreach hm hs
              cases hrole.symm.trans htask
        | asks command rest rest' inv stack hw hs hs' hc =>
            rw [hs] at ih
            exact hs' ▸ ih.1
        | goesOn reply rest rest' inv stack hw hs hs' hc =>
            rw [hs] at ih
            exact hs' ▸ ih.1
        | leaves reply rest inv stack hw hs hs' hc hr =>
            rw [hs] at ih
            exact hs' ▸ ih.1.2
        | rests reply hw hs hm hc => exact hs ▸ ih.1
      · rw [startsWork_of_invoke hreach hc hrole]
        exact List.mem_cons_self

/-! ## Sources that are gone -/

/-- **What is gone stays gone.** -/
theorem Gone.step (hreach : Reachable client m) (h : m.Gone c id) : (m.step client).Gone c id := by
  obtain ⟨t, ht, hnone, hlt⟩ := h
  have hmove := (turn_step client m).desk c
  obtain ⟨t', ht', hcontinues⟩ := hmove.continues (hreach.desk c) ht
  refine ⟨t', ht', ?_, Nat.lt_of_lt_of_le hlt hcontinues.next⟩
  cases hfound : t'.source? id with
  | none => rfl
  | some s' =>
      obtain ⟨hmem, rfl⟩ := Timetable.mem_of_source? hfound
      cases hmove.fate (hreach.desk c) ht ht' hmem with
      | fresh hs hid hrun hready => omega
      | kept s hs | started s hs | rearmed s hs => cases hnone.symm.trans hs

theorem Gone.after (hreach : Reachable client m) (h : m.Gone c id) (n : Nat) :
    (m.after client n).Gone c id := by
  induction n with
  | zero => exact h
  | succ n ih => exact ih.step (hreach.after n)

/-- Nothing can be done with a source that is gone. -/
theorem Gone.invalid (hreach : Reachable client m) (h : m.Gone c id) :
    (m.world.context? c).map (·.isPending id) = some false ∧ ¬ m.StartsWork client c id ∧
      (m.removal? = some (c, id) →
        (m.step client).control = .deliver (.failed (.source (.invalidSource id)))) := by
  obtain ⟨t, ht, hnone, -⟩ := h
  obtain ⟨x, hx, rfl⟩ := Option.map_eq_some_iff.mp ht
  have hpending : x.isPending id = false := by
    unfold MainContext.isPending
    rw [show x.source? id = none from hnone]
    rfl
  refine ⟨?_, fun hstarts => ?_, fun hm => ?_⟩
  · rw [show m.world.context? c = some x from hx, Option.map_some, hpending]
  · obtain ⟨u, s, hu, hs, -⟩ := hstarts.began hreach
    obtain rfl := Option.some.inj (ht.symm.trans hu)
    cases hnone.symm.trans hs
  · rw [(follows_perform client (control_of_removal? hm)).control]
    show (m.world.removeSource c id).control = _
    unfold World.removeSource
    rw [show m.world.context? c = some x from hx]
    simp only [hpending, Bool.false_eq_true, if_false]
    rfl

/-- A source that is attached can be removed. -/
theorem removes_of_isPending (hm : m.removal? = some (c, id))
    (hpending : (m.world.context? c).map (·.isPending id) = some true) :
    m.Removes client c id := by
  refine ⟨hm, ?_⟩
  rw [(follows_perform client (control_of_removal? hm)).control]
  obtain ⟨x, hx, hattached⟩ := Option.map_eq_some_iff.mp hpending
  show (m.world.removeSource c id).control = _
  unfold World.removeSource
  rw [hx]
  dsimp only
  rw [if_pos hattached]
  rfl

theorem gone_of_removes (hreach : Reachable client m) (h : m.Removes client c id) :
    (m.step client).Gone c id := by
  obtain ⟨hm, hdone⟩ := h
  have hf := follows_perform client (control_of_removal? hm)
  have hcontrol := hf.control.symm.trans hdone
  have hworld := hf.world.timetable c
  change (m.world.removeSource c id).control = _ at hcontrol
  change _ = (m.world.removeSource c id).world.timetable? c at hworld
  unfold World.removeSource at hcontrol hworld
  cases hx : m.world.context? c with
  | none =>
      rw [hx] at hcontrol
      cases hcontrol
  | some x =>
      rw [hx] at hcontrol hworld
      dsimp only at hcontrol hworld
      split at hcontrol
      · next hpending =>
          obtain ⟨s, hs⟩ := Option.isSome_iff_exists.mp hpending
          rw [if_pos hpending] at hworld
          obtain ⟨hmem, hid⟩ := Timetable.mem_of_source? (t := x.timetable) hs
          refine ⟨x.timetable.detach id, ?_, Timetable.source?_detach _ _, ?_⟩
          · rw [hworld]
            show (m.world.setContext c (x.detach id)).timetable? c = _
            rw [World.timetable?_setContext _ hx, if_pos rfl]
            rfl
          · exact hid ▸ ((hreach.desk c).present _ (World.timetable?_eq hx)).fresh s hmem
      · cases hcontrol

theorem gone_of_breaks (hreach : Reachable client m) (h : m.Breaks c id) :
    (m.step client).Gone c id := by
  obtain ⟨mayStay, reply, stack, hs, hm, hbreaks⟩ := h
  have hf := follows_resume client hm hs
  have hmarks : marks m.stack = .sourceEnd c id mayStay :: marks stack := by
    rw [hs]
    rfl
  have hrun : (id, mayStay) ∈ (m.desk c).running := by
    rw [(desk_of_marks hmarks c).2]
    simp [Frame.running]
  cases ht : m.world.timetable? c with
  | none =>
      rw [((hreach.desk c).absent ht).2] at hrun
      cases hrun
  | some t =>
      refine ⟨t.detach id, ?_, Timetable.source?_detach _ _,
        ((hreach.desk c).present t ht).running_lt _ hrun⟩
      rw [hf.world.timetable]
      show (m.world.endSource c id mayStay reply).world.timetable? c = _
      rw [World.endSource_of_breaks hbreaks]
      show (m.world.modifyContext c (·.endRun id false)).timetable? c = _
      rw [World.timetable?_modifyContext _ c (g := (·.settle id false))
        (fun x => x.timetable_endRun id false), if_pos rfl, ht]
      rfl

/-- The work of a source that may not stay has started: it is under way, or the source is gone. -/
def Spent (m : Machine σ β κ) (c : ContextId) (id : SourceId) : Prop :=
  (id, false) ∈ (m.desk c).running ∨ m.Gone c id

theorem Spent.step (hreach : Reachable client m) (h : m.Spent c id) : (m.step client).Spent c id := by
  rcases h with hrun | hgone
  case inr => exact .inr (hgone.step hreach)
  have hsound := hreach.desk c
  have same (hr : ((m.step client).desk c).running = (m.desk c).running) :
      (m.step client).Spent c id := .inl (hr ▸ hrun)
  cases (turn_step client m).desk c with
  | edits ht hw hr => exact same hr
  | opens config ht ht' hw hr => exact same hr
  | drops ht ht' hw hr =>
      rw [(hsound.absent ht).2] at hrun
      cases hrun
  | ticks t now htick ht ht' hw hr => exact same hr
  | collects t ht ht' hw hr => exact same hr
  | skips t id' ht ht' hid hw hr => exact same hr
  | begins t id' s ht ht' hs hidle hw hr => exact .inl (hr ▸ List.mem_cons_of_mem _ hrun)
  | ends t id' mayStay stays hstay ht ht' hw hr =>
      have hlt := (hsound.present t ht).running_lt _ hrun
      rw [hr] at hrun
      rcases List.mem_cons.mp hrun with heq | hrun
      · -- it ends, and may not stay
        cases heq
        cases stays with
        | true => cases hstay rfl
        | false => exact .inr ⟨t.detach id, ht', Timetable.source?_detach _ _, hlt⟩
      · exact .inl hrun

theorem Spent.after (hreach : Reachable client m) (h : m.Spent c id) (n : Nat) :
    (m.after client n).Spent c id := by
  induction n with
  | zero => exact h
  | succ n ih => exact ih.step (hreach.after n)

theorem Spent.not_startsWork (hreach : Reachable client m) (h : m.Spent c id) :
    ¬ m.StartsWork client c id := by
  rcases h with hrun | hgone
  · exact fun hstarts => hstarts.not_working hreach (List.mem_map_of_mem hrun)
  · exact (hgone.invalid hreach).2.1

/-- Work that may not stay is spent from its start on. -/
theorem StartsWork.spent (hreach : Reachable client m) (h : m.StartsWork client c id) {s : Source β}
    (hs : m.source? c id = some s) (hwork : s.work.mayStay = false) :
    (m.step client).Spent c id := by
  obtain ⟨r, hr, -, hrun⟩ := h.attached hreach
  obtain rfl := Option.some.inj (hs.symm.trans hr)
  rw [hwork] at hrun
  exact .inl (hrun ▸ List.mem_cons_self)

/-- Work that may not stay is done once at most. -/
theorem StartsWork.once (hreach : Reachable client m) (h : m.StartsWork client c id) {s : Source β}
    (hs : m.source? c id = some s) (hwork : s.work.mayStay = false) (n : Nat) :
    ¬ (m.after client (n + 1)).StartsWork client c id := by
  have hspent := (h.spent hreach hs hwork).after hreach.step n
  rw [after_succ] at hspent
  exact hspent.not_startsWork (hreach.after _)

end Machine

/-! ## The contract -/

/-- **The life cycle of a source.** In every run of every client, whatever its callbacks do,

* a source starts only while it is attached and does not work already, a timeout never before its
  deadline, and one whose work may not stay never again;
* a callback in the role of a source is invoked only as that source starts, and while it is in
  progress the source works;
* a source that was removed or did not stay is not pending, cannot be removed, and never starts
  again. -/
theorem source_life_cycle (client : Client σ β κ) (state : σ) (program : β) (c : ContextId)
    (id : SourceId) :
    let m : Machine σ β κ := .initial state program
    (∀ n, (m.after client n).StartsWork client c id →
      id ∉ (m.after client n).working c ∧
      ∃ s, (m.after client n).source? c id = some s ∧
        (∀ interval, s.kind = .timeout interval → s.readyAt ≤ (m.after client n).time c) ∧
        (s.work.mayStay = false → ∀ k, n < k → ¬ (m.after client k).StartsWork client c id)) ∧
    (∀ n callback inv, (m.after client (n + 1)).control = .invoke callback inv →
      inv.role = .source c id → (m.after client n).StartsWork client c id) ∧
    (∀ n rest inv, .callback rest inv ∈ (m.after client n).stack → inv.role = .source c id →
      id ∈ (m.after client n).working c) ∧
    (∀ j, (m.after client j).Removes client c id ∨ (m.after client j).Breaks c id → ∀ k, j < k →
      ((m.after client k).world.context? c).map (·.isPending id) = some false ∧
      ¬ (m.after client k).StartsWork client c id ∧
      ((m.after client k).removal? = some (c, id) →
        (m.after client (k + 1)).control =
          .deliver (.failed (.source (.invalidSource id))))) := by
  intro m
  have hreach (n : Nat) : Reachable client (m.after client n) :=
    (Reachable.initial state program).after n
  refine ⟨fun n hstarts => ?_, fun n callback inv hc hrole => ?_, fun n rest inv hmem hrole => ?_,
    fun j hend k hk => ?_⟩
  · obtain ⟨s, hs, hwait, -⟩ := hstarts.attached (hreach n)
    refine ⟨hstarts.not_working (hreach n), s, hs, fun interval hkind => ?_, fun hwork k hk => ?_⟩
    · exact (hreach n).due_of_waiting hwait hs (by rw [hkind]; rfl)
    · obtain ⟨d, rfl⟩ := Nat.exists_eq_add_of_lt hk
      rw [Nat.add_assoc, Machine.after_add]
      exact hstarts.once (hreach n) hs hwork d
  · exact Machine.startsWork_of_invoke (hreach n) hc hrole
  · exact (hreach n).seated.1.works hmem hrole
  · have hgone : (m.after client (j + 1)).Gone c id :=
      hend.elim (Machine.gone_of_removes (hreach j)) (Machine.gone_of_breaks (hreach j))
    obtain ⟨d, rfl⟩ := Nat.exists_eq_add_of_lt hk
    rw [Nat.add_right_comm]
    have hlater := hgone.after (hreach (j + 1)) d
    rw [← Machine.after_add] at hlater
    exact hlater.invalid (hreach _)

/-- A program with an idle source that removes itself and then says that it stays. -/
def pruner : Client Unit Nat (Routine Nat) :=
  .ofRoutines
    (fun
      | 0 => { acts := [.command (.newContext { clock := .manual }),
          .command (.addIdle ⟨0⟩ .standard false 1), .command (.iterate ⟨0⟩),
          .command (.iterate ⟨0⟩), .command (.removeSource ⟨0⟩ ⟨0⟩)] }
      | _ => { acts := [.command (.removeSource ⟨0⟩ ⟨0⟩)], outcome := .flow true })
    []

/-- A state of the run of `pruner`. -/
def prunerAfter (n : Nat) : Machine Unit Nat (Routine Nat) :=
  (Machine.initial () 0).after pruner n

/-- The source of `pruner` starts once, though it says that it stays, and the program cannot remove
it again. -/
theorem source_life_cycle_pruner :
    (prunerAfter 8).StartsWork pruner ⟨0⟩ ⟨0⟩ ∧ ⟨0⟩ ∉ (prunerAfter 8).working ⟨0⟩ ∧
      (prunerAfter 11).Removes pruner ⟨0⟩ ⟨0⟩ ∧ (prunerAfter 11).working ⟨0⟩ = [⟨0⟩] ∧
      (∀ k, 11 < k → ¬ (prunerAfter k).StartsWork pruner ⟨0⟩ ⟨0⟩) ∧
      (prunerAfter 21).control = .deliver (.failed (.source (.invalidSource ⟨0⟩))) := by
  have hstarts : (prunerAfter 8).StartsWork pruner ⟨0⟩ ⟨0⟩ := by
    unfold Machine.StartsWork
    cbv
  have hremoves : (prunerAfter 11).Removes pruner ⟨0⟩ ⟨0⟩ :=
    Machine.removes_of_isPending (by cbv) (by cbv)
  obtain ⟨hbefore, -, -, hremoved⟩ := source_life_cycle pruner () 0 ⟨0⟩ ⟨0⟩
  refine ⟨hstarts, (hbefore 8 hstarts).1, hremoves, by cbv,
    fun k hk => (hremoved 11 (.inl hremoves) k hk).2.1, ?_⟩
  exact (hremoved 11 (.inl hremoves) 20 (by decide)).2.2 (by cbv)

end ObjectSystem
