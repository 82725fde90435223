import ObjectSystem.Proofs.Countdown
import ObjectSystem.Proofs.Pending
import ObjectSystem.Proofs.Punctual

/-!
# Rounds

A round is a leg during which the clock stands still. An iteration is one: it launches what it has
collected, each source once, and the timeouts among these right at their deadlines, because a manual
clock has not passed them before. If anything was pending, less is owed after it (`AtRest.iterate`),
so that a run until idle ends (`AtRest.drain`).
-/

namespace ObjectSystem

variable {σ β κ : Type}

open Machine (Reachable)

/-! ## What is collected -/

/-- An iteration collects no source twice. -/
theorem Timetable.Sound.nodup_ready {t : Timetable β} {waiting : List SourceId}
    {running : List (SourceId × Bool)} (h : t.Sound waiting running) : t.ready.Nodup := by
  refine List.nodup_iff_count_le_one.mpr fun id => ?_
  by_cases hid : id ∈ t.ready
  · obtain ⟨s, hs, -, rfl⟩ := collects_of_mem_ready hid
    cases hkind : s.kind.isIdle with
    | false =>
        rw [count_ready h.nodup hs hkind]
        have hphase := h.phase s hs hkind
        have hleaves := TimeoutQueue.count_due_add t.queue t.now s.entry
        split <;> omega
    | true =>
        -- no entry of the queue stands for an idle source
        have htimeouts : (((t.queue.due t.now).filterMap t.timeout?).map (·.id)).count s.id = 0 := by
          rw [count_timeouts h.nodup hs, List.count_eq_zero_of_not_mem, ite_self]
          intro hdue
          have hentry := (TimeoutQueue.mem_due.mp hdue).1
          cases hkind.symm.trans (h.current s hs s.entry hentry rfl).1
        have hidle : ((t.sources.filter (·.isReadyIdle)).map (·.id)).Nodup :=
          h.nodup.sublist (List.filter_sublist.map _)
        rw [t.ready_perm.count_eq, List.map_append, List.count_append, htimeouts, Nat.zero_add]
        exact List.nodup_iff_count_le_one.mp hidle s.id
  · rw [List.count_eq_zero_of_not_mem hid]
    exact Nat.zero_le _

namespace Stint

section
variable {r : Stint σ β κ} {m : Machine σ β κ} {a : Ledger β} {stack : List (Layer β κ)}

/-- Collected sources that still have their turn. Each is attached, and the timeouts among them are
due now. -/
structure Lined (a : Ledger β) (ready : List SourceId) : Prop where
  nodup : ready.Nodup
  attached : ∀ id ∈ ready, ∃ s ∈ a.context.sources, s.id = id
  due : ∀ s ∈ a.context.sources, s.id ∈ ready → s.kind.isIdle = false →
    s.readyAt = a.context.now

theorem Lined.serve {id : SourceId} {ready : List SourceId} (h : Lined a (id :: ready)) :
    Lined (a.serve id) ready := by
  obtain ⟨hid, hnodup⟩ := List.nodup_cons.mp h.nodup
  refine ⟨hnodup, fun other hother => ?_, fun s hs hready hkind => ?_⟩
  · have hpending := MainContext.isPending_iff.mpr (h.attached other (List.mem_cons_of_mem _ hother))
    refine MainContext.isPending_iff.mp ?_
    show (a.context.serve id _).isPending other = true
    rw [MainContext.isPending_serve, if_neg (fun heq : other = id => hid (heq ▸ hother))]
    exact hpending
  · have hnow := (MainContext.fields_serve a.context id (decide (0 < a.left id))).2.1
    rcases MainContext.mem_serve hs with ⟨hs, -⟩ | ⟨-, q, -, hq, rfl⟩
    · exact (h.due s hs (List.mem_cons_of_mem _ hready) hkind).trans hnow.symm
    · rw [(MainContext.fields_rested a.context.now q).1, hq] at hready
      exact absurd hready hid

/-- A round in which all that was collected starts. -/
structure Cleared (r : Stint σ β κ) (m : Machine σ β κ) (a : Ledger β) (ready : List SourceId)
    (n : Nat) (b : Ledger β) : Prop extends r.Round m a n b where
  starts : ∀ id ∈ ready, id ∈ m.launches r.client r.context n
  due : ∀ s ∈ a.context.sources, s.id ∈ ready → s.kind.isIdle = false →
    a.context.now ∈ m.deadlines r.client r.context n
  same : ready = [] → b = a

theorem Cleared.cons {s : Source β} {ready : List SourceId} {n : Nat} {b : Ledger β}
    (hsource : s ∈ a.context.sources) (hrest : r.AtRest m a) (hlined : Lined a (s.id :: ready))
    (hleg : r.Leg m a 4 (a.serve s.id)) (hlaunches : m.launches r.client r.context 4 = [s.id])
    (hdeadlines : m.deadlines r.client r.context 4 = if s.kind.isIdle then [] else [s.readyAt])
    (h : r.Cleared (m.after r.client 4) (a.serve s.id) ready n b) :
    r.Cleared m a (s.id :: ready) (4 + n) b := by
  have hround : r.Round m a 4 (a.serve s.id) := by
    refine ⟨hleg, (MainContext.fields_serve a.context s.id _).2.1, fun deadline hmem => ?_⟩
    rw [hdeadlines] at hmem
    split at hmem
    · cases hmem
    · next hkind =>
        rw [List.mem_singleton.mp hmem]
        exact hlined.due s hsource List.mem_cons_self (Bool.eq_false_iff.mpr hkind)
  refine ⟨hround.trans h.toRound, fun other hother => ?_, fun q hq hready hkind => ?_,
    fun hnil => (by cases hnil)⟩
  · rw [Machine.launches_add, hlaunches]
    rcases List.mem_cons.mp hother with rfl | hother
    · exact List.mem_append_left _ (List.mem_singleton_self _)
    · exact List.mem_append_right _ (h.starts other hother)
  · rw [Machine.deadlines_add, hdeadlines]
    by_cases hid : q.id = s.id
    · obtain rfl := hrest.sound.eq_of_id hq hsource hid
      refine List.mem_append_left _ ?_
      rw [hkind, if_neg Bool.false_ne_true, hlined.due q hq List.mem_cons_self hkind]
      exact List.mem_singleton_self _
    · have hnow := h.due q (MainContext.mem_serve_of_ne hq hid)
        ((List.mem_cons.mp hready).resolve_left hid) hkind
      rw [hround.now] at hnow
      exact List.mem_append_right _ hnow

/-- **The turns of an iteration**: each collected source starts. -/
theorem AtRest.iteration {ready : List SourceId} (h : r.AtRest m a) (hlined : Lined a ready)
    {worked : Bool} {reply : Reply β}
    (hs : m.stack = .operation (.iteration r.context ready worked) :: stack)
    (hm : m.control = .deliver reply) (hheight : r.height ≤ stack.length) :
    ∃ n b, r.Cleared m a ready n b ∧ (m.after r.client n).stack = stack ∧
      (m.after r.client n).control = .deliver (.flag worked) := by
  induction ready generalizing m a reply with
  | nil =>
      have hadvance : m.advance r.client =
          m.follow r.client stack (.reply m.world (.flag worked)) :=
        Machine.advance_resume r.client hm hs
      obtain ⟨hround, hstack, hcontrol⟩ := h.quietRound (by simp [hs]; omega)
        (Machine.launch?_of_deliver hm) hadvance rfl h.context rfl (.refl h.taskless) rfl
      exact ⟨1, _, ⟨hround, fun _ hid => (by cases hid), fun _ _ hid => (by cases hid),
        fun _ => rfl⟩, hstack, hcontrol⟩
  | cons id ready ih =>
      obtain ⟨s, hsource, rfl⟩ := hlined.attached id List.mem_cons_self
      obtain ⟨hleg, hs₄, hm₄, hlaunches, hdeadlines⟩ := h.turn hsource hs hm hheight
      obtain ⟨n, b, hcleared, hstack, hcontrol⟩ := ih hleg.rest hlined.serve hs₄ hm₄
      refine ⟨4 + n, b, hcleared.cons hsource h hlined hleg hlaunches hdeadlines, ?_⟩
      rw [Machine.after_add]
      exact ⟨hstack, hcontrol⟩

end

/-! ## Iterations -/

section
variable {r : Stint σ β κ} {m : Machine σ β κ} {a b d : Ledger β} {stack : List (Layer β κ)}
  {j k n : Nat}

/-- A context is pending if a pass over the tasks is asked for or a source is to be collected. -/
theorem AtRest.pending_eq (h : r.AtRest m a) :
    a.context.pending = (a.context.tasksReady || !a.context.timetable.ready.isEmpty) :=
  Desk.Sound.pending_eq h.sound

/-- What is due has not been due before. -/
theorem AtRest.lined (h : r.AtRest m a) :
    Lined ⟨a.context.collectReady.1, a.left⟩ a.context.timetable.ready := by
  refine ⟨h.sound.nodup_ready, fun id hid => ?_, fun s hs hready hkind => ?_⟩
  · obtain ⟨s, hs, -, hid⟩ := Timetable.collects_of_mem_ready hid
    exact ⟨s, hs, hid⟩
  · obtain ⟨q, hq, hcollects, hid⟩ := Timetable.collects_of_mem_ready hready
    obtain rfl := h.sound.eq_of_id hq hs hid
    obtain ⟨⟨harmed, hdue⟩, -⟩ := hcollects.due hkind
    exact Nat.le_antisymm hdue (h.reach.punctual h.context h.manual q hs harmed)

/-- A round in which what is pending is done. -/
structure Iterated (r : Stint σ β κ) (m : Machine σ β κ) (a : Ledger β) (n : Nat) (b : Ledger β) :
    Prop extends r.Round m a n b where
  due : ∀ s ∈ a.context.sources, a.context.timetable.Due s →
    a.context.now ∈ m.deadlines r.client r.context n
  idle : a.context.pending = false → b.context.pending = false
  less : a.context.pending = true → r.owed b < r.owed a

/-- Without a request for a pass, what is collected is all that is pending. -/
theorem Cleared.iterated (h : r.AtRest m a) (htasks : a.context.tasksReady = false)
    (hround : r.Round m a j ⟨a.context.collectReady.1, a.left⟩)
    (g : r.Cleared (m.after r.client j) ⟨a.context.collectReady.1, a.left⟩
      a.context.timetable.ready k b) : r.Iterated m a (j + k) b := by
  have hall := hround.trans g.toRound
  have hpending := h.pending_eq
  rw [htasks, Bool.false_or] at hpending
  refine ⟨hall, fun s hs hdue => ?_, fun hidle => ?_, fun hbusy => ?_⟩
  · obtain ⟨hkind, hrun⟩ := h.sound.of_armed hs hdue.1
    rw [Machine.deadlines_add]
    exact List.mem_append_right _
      (g.due s hs (Timetable.mem_ready h.sound.nodup hs (.inr ⟨hdue, hrun⟩)) hkind)
  · -- what leaves the queue was not in it
    rw [g.same (by simpa [hidle] using hpending)]
    have hsound := hround.rest.sound
    have hnone := (MainContext.pending_iff h.sound.nodup).not.mp (Bool.eq_false_iff.mp hidle)
    refine Bool.eq_false_iff.mpr ((MainContext.pending_iff hsound.nodup).not.mpr fun hor => ?_)
    refine hnone (hor.imp id (.imp id fun ⟨s, hs, harmed, hdue⟩ => ⟨s, hs, ?_, hdue⟩))
    exact (TimeoutQueue.mem_afterDue.mp harmed).1
  · rw [hbusy] at hpending
    obtain ⟨id, hid⟩ := List.exists_mem_of_ne_nil a.context.timetable.ready fun hnil => by
      simp [hnil] at hpending
    have hlaunch : id ∈ m.launches r.client r.context (j + k) := by
      rw [Machine.launches_add]
      exact List.mem_append_right _ (g.starts id hid)
    exact hall.owed_lt_of_launch h hlaunch

/-- The sources are collected and have their turns. -/
theorem AtRest.collect (h : r.AtRest m a) (htasks : a.context.tasksReady = false) {polled : Bool}
    {reply : Reply β} (hs : m.stack = .operation (.collect r.context polled) :: stack)
    (hm : m.control = .deliver reply) (hheight : r.height ≤ stack.length) :
    ∃ n b, r.Iterated m a n b ∧ (m.after r.client n).stack = stack ∧
      (m.after r.client n).control = .deliver (.flag (polled || a.context.pending)) := by
  have hflag := h.pending_eq
  rw [htasks, Bool.false_or] at hflag
  have hadvance : m.advance r.client = m.follow r.client stack
      (.proceed (m.world.setContext r.context a.context.collectReady.1)
        [.iteration r.context a.context.timetable.ready (polled || a.context.pending)]) := by
    rw [Machine.advance_resume r.client hm hs]
    show m.follow r.client stack (m.world.collect r.context polled) = _
    simp only [World.collect, h.context, hflag]
    rfl
  obtain ⟨hround, hs₁, hm₁⟩ := h.quietRound (y := a.context.collectReady.1) (by simp [hs]; omega)
    (Machine.launch?_of_deliver hm) hadvance rfl
    ((World.context?_setContext m.world h.context).trans (if_pos rfl)) rfl
    ⟨rfl, rfl, h.taskless, id⟩ rfl
  obtain ⟨n, b, hcleared, hstack, hcontrol⟩ := hround.rest.iteration h.lined hs₁ hm₁ hheight
  refine ⟨1 + n, b, hcleared.iterated h htasks hround, ?_⟩
  rw [Machine.after_add]
  exact ⟨hstack, hcontrol⟩

/-- A round that only takes back a request for a pass comes before what is pending is done. -/
theorem Iterated.of_round (h : r.AtRest m a) (hround : r.Round m a j b)
    (htimes : b.context.timetable = a.context.timetable) (htasks : b.context.tasksReady = false)
    (g : r.Iterated (m.after r.client j) b k d) : r.Iterated m a (j + k) d := by
  have hsources : b.context.sources = a.context.sources := congrArg Timetable.sources htimes
  have hpending := h.pending_eq
  have hrest := hround.rest.pending_eq
  rw [htasks, htimes, Bool.false_or] at hrest
  refine ⟨hround.trans g.toRound, fun s hs hdue => ?_, fun hidle => g.idle ?_, fun hbusy => ?_⟩
  · rw [Machine.deadlines_add, ← hround.now]
    exact List.mem_append_right _ (g.due s (hsources ▸ hs) (htimes ▸ hdue))
  · rw [hidle, eq_comm, Bool.or_eq_false_iff] at hpending
    exact hrest.trans hpending.2
  · cases hready : a.context.tasksReady with
    | true => exact Nat.lt_of_le_of_lt g.owed_le (hround.owed_lt_of_tasks hready htasks)
    | false =>
        rw [hbusy, hready, Bool.false_or] at hpending
        exact Nat.lt_of_lt_of_le (g.less (hrest.trans hpending.symm)) hround.owed_le

/-- **An iteration** does what is pending, and answers whether anything was. -/
theorem AtRest.iterate (h : r.AtRest m a) (hm : m.control = .perform (.iterate r.context))
    (hbusy : r.height < m.stack.length) :
    ∃ n b, r.Iterated m a n b ∧ (m.after r.client n).stack = m.stack ∧
      (m.after r.client n).control = .deliver (.flag a.context.pending) := by
  have hlaunch := Machine.launch?_of_perform (c := r.context) hm
  have hadvance : m.advance r.client = m.follow r.client m.stack (m.world.iterate r.context) :=
    Machine.advance_perform r.client hm
  unfold World.iterate at hadvance
  rw [h.context] at hadvance
  dsimp only at hadvance
  cases hready : a.context.tasksReady with
  | false =>
      rw [MainContext.beginPass, hready, if_neg Bool.false_ne_true] at hadvance
      obtain ⟨hround, hs₁, hm₁⟩ := h.quietRound hbusy hlaunch hadvance rfl h.context rfl
        (.refl h.taskless) rfl
      obtain ⟨n, b, hiterated, hstack, hcontrol⟩ :=
        hround.rest.collect hready hs₁ hm₁ (Nat.le_of_lt hbusy)
      refine ⟨1 + n, b, .of_round h hround rfl hready hiterated, ?_⟩
      rw [Machine.after_add]
      exact ⟨hstack, hcontrol⟩
  | true =>
      obtain ⟨x, hbegin, hx_times, hx_held, hx_ready⟩ :=
        MainContext.beginPass_of_taskless h.taskless hready
      rw [hbegin] at hadvance
      dsimp only at hadvance
      obtain ⟨hround₁, hs₁, hm₁⟩ := h.quietRound hbusy hlaunch hadvance rfl
        ((World.context?_setContext m.world h.context).trans (if_pos rfl)) rfl
        ⟨congrArg Timetable.config hx_times, congrArg Timetable.sources hx_times, hx_held,
          fun _ => hready⟩ (congrArg Timetable.now hx_times)
      obtain ⟨v, y, hpass, hctx, hloops, hy_times, hy_held, hy_ready⟩ :=
        World.beginRound_of_taskless (p := { context := r.context }) hround₁.rest.context hx_held
      obtain ⟨hround₂, hs₂, hm₂⟩ := hround₁.rest.quietRound
        ((congrArg List.length hs₁).symm ▸ Nat.lt_add_right 2 hbusy) (Machine.launch?_of_deliver hm₁)
        ((Machine.advance_resume r.client hm₁ hs₁).trans (congrArg _ hpass)) rfl hctx hloops
        ⟨congrArg Timetable.config hy_times, congrArg Timetable.sources hy_times, hy_held,
          fun hy => hy_ready.symm.trans hy⟩ (congrArg Timetable.now hy_times)
      obtain ⟨n, b, hiterated, hstack, hcontrol⟩ :=
        hround₂.rest.collect (hy_ready.trans hx_ready) hs₂ hm₂ (Nat.le_of_lt hbusy)
      refine ⟨2 + n, b, .of_round h (hround₁.trans hround₂) (hy_times.trans hx_times)
        (hy_ready.trans hx_ready) hiterated, ?_, ?_⟩
      · rw [Machine.after_add]
        exact hstack
      · rw [Machine.after_add, h.pending_eq, hready, Bool.true_or]
        exact hcontrol

/-! ## Runs until idle -/

/-- A round after which nothing is pending. -/
structure Drained (r : Stint σ β κ) (m : Machine σ β κ) (a : Ledger β) (n : Nat) (b : Ledger β) :
    Prop extends r.Round m a n b where
  idle : b.context.pending = false
  due : ∀ s ∈ a.context.sources, a.context.timetable.Due s →
    a.context.now ∈ m.deadlines r.client r.context n
  same : a.context.pending = false → b = a

/-- A run until idle that finds nothing pending ends. -/
theorem AtRest.drain_of_idle (h : r.AtRest m a) (hidle : a.context.pending = false) {count : Nat}
    (hadvance : m.advance r.client = m.follow r.client stack (m.world.drain r.context count))
    (hlaunch : m.launch? r.context = none) (hbusy : r.height < m.stack.length) :
    r.Drained m a 1 a ∧ (m.step r.client).stack = stack ∧
      (m.step r.client).control = .deliver (.count count) := by
  rw [World.drain_of_idle h.context hidle] at hadvance
  obtain ⟨hround, hstack, hcontrol⟩ := h.quietRound hbusy hlaunch hadvance rfl h.context rfl
    (.refl h.taskless) rfl
  refine ⟨⟨hround, hidle, fun s hs hdue => ?_, fun _ => rfl⟩, hstack, hcontrol⟩
  have hpending := (MainContext.pending_iff h.sound.nodup).mpr (.inr (.inr ⟨s, hs, hdue⟩))
  cases hidle.symm.trans hpending

/-- **A run until idle** ends: each iteration leaves less to do. -/
theorem AtRest.drain {count : Nat} (h : r.AtRest m a)
    (hadvance : m.advance r.client = m.follow r.client stack (m.world.drain r.context count))
    (hlaunch : m.launch? r.context = none) (hbusy : r.height < m.stack.length)
    (hheight : r.height ≤ stack.length) :
    ∃ n b ran, r.Drained m a n b ∧ count + a.context.pending.toNat ≤ ran ∧
      (m.after r.client n).stack = stack ∧
      (m.after r.client n).control = .deliver (.count ran) := by
  induction howed : r.owed a using Nat.strongRecOn generalizing m a count with
  | ind owed ih =>
  cases hpending : a.context.pending with
  | false =>
      obtain ⟨hdrained, hs₁, hm₁⟩ := h.drain_of_idle hpending hadvance hlaunch hbusy
      exact ⟨1, a, count, hdrained, Nat.le_refl count, hs₁, hm₁⟩
  | true =>
      rw [World.drain_of_pending ⟨_, h.context, hpending⟩] at hadvance
      obtain ⟨hround₁, hs₁, hm₁⟩ := h.quietRound hbusy hlaunch hadvance rfl h.context rfl
        (.refl h.taskless) rfl
      have hheight₁ : r.height < (m.after r.client 1).stack.length :=
        (congrArg List.length hs₁).symm ▸ Nat.lt_succ_of_le hheight
      obtain ⟨k, b, hiterated, hs₂, hm₂⟩ := hround₁.rest.iterate hm₁ hheight₁
      rw [hpending] at hm₂
      have hadvance₂ := Machine.advance_resume r.client hm₂ (hs₂.trans hs₁)
      obtain ⟨n, d, ran, hdrained, hran, hs₃, hm₃⟩ := ih (r.owed b)
        (howed ▸ hiterated.less hpending) hiterated.rest hadvance₂ (Machine.launch?_of_deliver hm₂)
        (hs₂.symm ▸ hheight₁) rfl
      refine ⟨1 + (k + n), d, ran, ⟨hround₁.trans (hiterated.trans hdrained.toRound),
        hdrained.idle, fun s hs hdue => ?_, fun hidle => ?_⟩, Nat.le_of_add_right_le hran, ?_⟩
      · rw [Machine.deadlines_add, Machine.deadlines_add]
        exact List.mem_append_right _ (List.mem_append_left _ (hiterated.due s hs hdue))
      · cases hidle.symm.trans hpending
      · rw [Machine.after_add, Machine.after_add]
        exact ⟨hs₃, hm₃⟩

theorem AtRest.runUntilIdle (h : r.AtRest m a)
    (hm : m.control = .perform (.runUntilIdle r.context)) (hbusy : r.height < m.stack.length) :
    ∃ n b ran, r.Drained m a n b ∧ a.context.pending.toNat ≤ ran ∧
      (m.after r.client n).stack = m.stack ∧
      (m.after r.client n).control = .deliver (.count ran) := by
  have hadvance : m.advance r.client = m.follow r.client m.stack (m.world.drain r.context 0) :=
    Machine.advance_perform r.client hm
  obtain ⟨n, b, ran, hdrained, hran, hends⟩ :=
    h.drain hadvance (Machine.launch?_of_perform hm) hbusy (Nat.le_of_lt hbusy)
  exact ⟨n, b, ran, hdrained, Nat.le_trans (Nat.le_add_left _ _) hran, hends⟩

end

end Stint

end ObjectSystem
