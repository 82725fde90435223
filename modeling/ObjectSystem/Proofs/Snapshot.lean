import Mathlib
import ObjectSystem.Proofs.Collecting
import ObjectSystem.Proofs.Pacing
import ObjectSystem.Proofs.Rounds

/-!
# One iteration, one snapshot

What an iteration starts is settled at the moment in which it collects its sources. It takes what is
attached and does not work then, if that is idle or a timeout whose deadline has passed; only the due
timeouts that an enclosing iteration has collected and not come to have left the queue already, and
are not found there again (`Timetable.Sound.collects_iff`). The snapshot is in order and has nothing
twice (`Timetable.Sound.pairwise_snapshot`).

User code may attach, remove and dispatch sources while the snapshot is worked off. It cannot bring
in another source, and of those in the snapshot it can only take away: a source has its turn on the
stack on which it was collected, so it does not work then, and it starts unless it is gone
(`Dispatching.starts?_eq`). `iteration_dispatches_snapshot` is the contract.
-/

namespace ObjectSystem

variable {σ β κ : Type}

open Machine (Reachable marks)

/-! ## What is collected -/

/-- Which of two sources is ahead of the other in an iteration: by priority, then by deadline or time
of attachment, then by order of attachment. -/
def Source.Ahead (s q : Source β) : Prop :=
  s.priority.rank < q.priority.rank ∨ s.priority.rank = q.priority.rank ∧
    (s.readyAt < q.readyAt ∨ s.readyAt = q.readyAt ∧ s.id.number < q.id.number)

/-- A source that runs no later than another one is ahead of it. -/
theorem Source.ahead_of_runsBefore {s q : Source β} (h : s.runsBefore q = true) (hne : s.id ≠ q.id) :
    s.Ahead q := by
  have hnumber : s.id.number ≠ q.id.number := fun heq => hne (congrArg SourceId.mk heq)
  rw [runsBefore_iff] at h
  unfold Ahead
  omega

namespace Timetable

/-- The sources that an iteration that begins now runs, in order. -/
def snapshot (t : Timetable β) : List (Source β) :=
  t.ready.filterMap t.source?

variable {t : Timetable β} {waiting : List SourceId} {running : List (SourceId × Bool)}

/-- What a timetable has collected: the sources that do not run, if they are idle, or due and not
collected before. -/
theorem Sound.collects_iff (h : t.Sound waiting running) {s : Source β} (hs : s ∈ t.sources) :
    t.Collects s ↔ s.id ∉ running.map (·.1) ∧
      (s.kind.isIdle = true ∨ s.readyAt ≤ t.now ∧ s.id ∉ waiting) := by
  have hworks : s.id ∉ running.map (·.1) ↔ s.running = false := by
    rw [← h.runs s hs, Bool.not_eq_true]
  rw [hworks]
  constructor
  · rintro (hidle | ⟨⟨harmed, hdue⟩, hrun⟩)
    · obtain ⟨hkind, hrun⟩ := Bool.and_eq_true_iff.mp hidle
      exact ⟨by simpa using hrun, .inl hkind⟩
    · -- a timeout in the queue is not on the list of another iteration
      refine ⟨hrun, .inr ⟨hdue, fun hwaits => ?_⟩⟩
      have hphase := h.phase s hs (h.of_armed hs harmed).1
      have hentered := List.count_pos_iff.mpr harmed
      have hlisted := List.count_pos_iff.mpr hwaits
      omega
  · rintro ⟨hrun, hready⟩
    cases hkind : s.kind.isIdle with
    | true => exact .inl (by simp [Source.isReadyIdle, hkind, hrun])
    | false =>
        obtain ⟨hdue, hwaits⟩ := hready.resolve_left (by simp [hkind])
        exact .inr ⟨⟨h.armed_of_at_rest hs hkind hwaits hrun, hdue⟩, hrun⟩

theorem Sound.mem_snapshot (h : t.Sound waiting running) {s : Source β} :
    s ∈ t.snapshot ↔ s ∈ t.sources ∧ t.Collects s := by
  unfold snapshot
  rw [List.mem_filterMap]
  constructor
  · rintro ⟨id, hid, hs⟩
    obtain ⟨hmem, rfl⟩ := mem_of_source? hs
    obtain ⟨q, hq, hcollects, hqs⟩ := collects_of_mem_ready hid
    obtain rfl := h.eq_of_id hq hmem hqs
    exact ⟨hmem, hcollects⟩
  · rintro ⟨hs, hcollects⟩
    exact ⟨s.id, mem_ready h.nodup hs hcollects, h.source?_of_mem hs⟩

/-- Every identity that is collected stands for a source. -/
theorem Sound.map_snapshot (h : t.Sound waiting running) : t.snapshot.map (·.id) = t.ready := by
  unfold snapshot
  rw [List.map_filterMap]
  refine (List.filterMap_congr fun id hid => ?_).trans List.filterMap_some
  obtain ⟨s, hs, -, rfl⟩ := collects_of_mem_ready hid
  rw [h.source?_of_mem hs]
  rfl

/-- The snapshot is in order, and no source is in it twice. -/
theorem Sound.pairwise_snapshot (h : t.Sound waiting running) :
    t.snapshot.Pairwise Source.Ahead := by
  refine List.pairwise_filterMap.mpr ((t.pairwise_ready.and h.nodup_ready).imp ?_)
  rintro - - ⟨⟨s, hs, q, hq, rfl, rfl, hbefore⟩, hne⟩ s' hs' q' hq'
  obtain rfl := Option.some.inj ((h.source?_of_mem hs).symm.trans hs')
  obtain rfl := Option.some.inj ((h.source?_of_mem hq).symm.trans hq')
  exact Source.ahead_of_runsBefore hbefore hne

end Timetable

/-! ## What is started -/

namespace Machine

/-- An iteration that collects its sources in this moment takes the source: it is attached, it does
not work, and it is idle or a timeout whose deadline has passed, which no iteration has collected
before and not yet come to. -/
def Takes (m : Machine σ β κ) (c : ContextId) (s : Source β) : Prop :=
  m.source? c s.id = some s ∧ s.id ∉ m.working c ∧
    (s.kind.isIdle = true ∨ s.readyAt ≤ m.time c ∧ s.id ∉ (m.desk c).waiting)

/-- The source that the iteration at a height has start with the next step. -/
def starts? (client : Client σ β κ) (height : Nat) (c : ContextId) (m : Machine σ β κ) :
    Option SourceId :=
  if m.stack.length = height + 1 ∧ ((m.step client).working c).tail = m.working c then
    ((m.step client).working c).head?
  else none

/-- The sources that the iteration at a height has started itself within so many steps, in order. -/
def started (client : Client σ β κ) (m : Machine σ β κ) (height : Nat) (c : ContextId) (n : Nat) :
    List SourceId :=
  log client (starts? client height c) m n

section

variable {client : Client σ β κ} {m : Machine σ β κ} {c : ContextId} {base : List (Layer β κ)}
  {height : Nat} {id : SourceId}

theorem starts?_eq_some :
    m.starts? client height c = some id ↔ m.Dispatches client height c id := by
  unfold starts? Dispatches StartsWork
  rw [Option.ite_none_right_eq_some, and_assoc, and_congr_right_iff]
  intro _
  cases (m.step client).working c with
  | nil => simp
  | cons first rest =>
      rw [List.tail_cons, List.head?_cons, Option.some.injEq, List.cons.injEq, and_comm]

theorem mem_started {n : Nat} : id ∈ m.started client height c n ↔
    ∃ i, i < n ∧ (m.after client i).Dispatches client height c id := by
  unfold started log
  simp only [List.mem_filterMap, List.mem_range, starts?_eq_some]

/-- What an iteration has collected or set to work before the layers on its base were put there. -/
theorem Collects.desk (h : m.Collects c base) :
    (m.desk c).waiting = (marks base).flatMap (·.waiting c) ∧
      (m.desk c).running = (marks base).flatMap (·.running c) := by
  obtain ⟨⟨polled, hs⟩, -⟩ := h
  exact desk_of_marks (by rw [hs]; rfl) c

theorem Takes.iff_collects {t : Timetable β} (hreach : Reachable client m)
    (ht : m.world.timetable? c = some t) {s : Source β} :
    m.Takes c s ↔ s ∈ t.sources ∧ t.Collects s := by
  have hsound := (hreach.desk c).present t ht
  have hattached : m.source? c s.id = some s ↔ s ∈ t.sources := by
    rw [source?_eq ht]
    exact ⟨fun h => (Timetable.mem_of_source? h).1, hsound.source?_of_mem⟩
  unfold Takes
  rw [hattached, time_eq ht, and_congr_right_iff]
  exact fun hs => (hsound.collects_iff hs).symm

end

/-- The turns of a lineup without repetitions are those of different sources. -/
theorem eq_of_upNext? {client : Client σ β κ} {m : Machine σ β κ} {height n : Nat} {id : SourceId}
    (h : (m.lineup client height n).Nodup) {i k : Nat} (hi : i < n) (hk : k < n)
    (hnext : (m.after client i).upNext? height = some id)
    (hnext' : (m.after client k).upNext? height = some id) : i = k := by
  by_contra hne
  have hpairwise := List.pairwise_filterMap.mp h
  have hsymm : Std.Symm fun i k => ∀ b, (m.after client i).upNext? height = some b →
      ∀ b', (m.after client k).upNext? height = some b' → b ≠ b' :=
    ⟨fun _ _ h b hb b' hb' => (h b' hb' b hb).symm⟩
  exact hpairwise.forall (List.mem_range.mpr hi) (List.mem_range.mpr hk) hne id hnext id hnext' rfl

end Machine

section

variable {client : Client σ β κ} {m : Machine σ β κ} {c : ContextId} {base : List (Layer β κ)}
  {x : MainContext β} {id : SourceId} {rest : List SourceId}

/-- While its pass is in progress, an iteration starts no source. -/
theorem Polling.starts?_eq (h : Polling c base x m) : m.starts? client base.length c = none :=
  Option.eq_none_iff_forall_ne_some.mpr fun _ hstarts =>
    h.not_dispatches (Machine.starts?_eq_some.mp hstarts)

/-- A source that has its turn is the first of those that are still to have theirs. -/
theorem Dispatching.mem_of_upNext? (h : Dispatching c base rest m)
    (hnext : m.upNext? base.length = some id) : id ∈ rest ∧ id ∈ (m.desk c).waiting ∧
      (m.desk c).running = (marks base).flatMap (·.running c) := by
  cases h with
  | runs above other mayStay worked hs => cases hnext.symm.trans (Machine.upNext?_of_above hs)
  | turns worked reply hs hm =>
      obtain ⟨-, d, ready, worked', stack, hs', -⟩ := Machine.upNext?_eq_some.mp hnext
      obtain ⟨hlayer, rfl⟩ := List.cons.inj (hs.symm.trans hs')
      cases hlayer
      have hmarks : marks m.stack = .iteration c (id :: ready) worked :: marks base := by
        rw [hs]
        rfl
      obtain ⟨hwait, hrun⟩ := Machine.desk_of_marks hmarks c
      rw [hwait, hrun]
      simp

/-- **A source that has its turn starts unless it is gone**, if it did not work when the iteration
was asked for. -/
theorem Dispatching.starts?_eq (hreach : Reachable client m) (h : Dispatching c base rest m)
    (hidle : ∀ id ∈ rest, id ∉ ((marks base).flatMap (·.running c)).map (·.1)) :
    m.starts? client base.length c =
      (m.upNext? base.length).filter fun id => (m.source? c id).isSome := by
  refine Option.ext fun id => ?_
  rw [Machine.starts?_eq_some, h.dispatches_iff, Option.filter_eq_some_iff, and_congr_right_iff]
  intro hnext
  obtain ⟨hrest, -, hrunning⟩ := h.mem_of_upNext? hnext
  rw [Option.isSome_iff_exists]
  refine exists_congr fun s => and_iff_left_of_imp fun hs => ?_
  obtain ⟨t, ht, hfound⟩ := Machine.timetable_of_source? hs
  obtain ⟨hmem, rfl⟩ := Timetable.mem_of_source? hfound
  have hruns := ((hreach.desk c).present t ht).runs s hmem
  rw [hrunning] at hruns
  exact Bool.eq_false_iff.mpr fun hrun => hidle s.id hrest (hruns.mp hrun)

/-- A source that has its turn has been attached, so it is gone if it is not attached any more. -/
theorem Dispatching.gone_iff (hreach : Reachable client m) (h : Dispatching c base rest m)
    (hnext : m.upNext? base.length = some id) : m.Gone c id ↔ m.source? c id = none := by
  obtain ⟨-, hwaits, -⟩ := h.mem_of_upNext? hnext
  cases ht : m.world.timetable? c with
  | none =>
      rw [((hreach.desk c).absent ht).1] at hwaits
      cases hwaits
  | some t =>
      rw [Machine.source?_eq ht]
      constructor
      · rintro ⟨u, hu, hnone, -⟩
        obtain rfl := Option.some.inj (ht.symm.trans hu)
        exact hnone
      · intro hnone
        exact ⟨t, ht, hnone, ((hreach.desk c).present t ht).waits_lt id hwaits⟩

theorem Dispatching.not_collects (h : Dispatching c base rest m) : ¬ m.Collects c base := by
  rintro ⟨⟨polled, hs'⟩, -⟩
  cases h with
  | turns worked reply hs hm => cases (List.cons.inj (hs.symm.trans hs')).1
  | runs above other mayStay worked hs =>
      have hheight := congrArg List.length (hs.symm.trans hs')
      simp only [List.length_append, List.length_cons] at hheight
      omega

end

/-! ## The contract -/

/-- What is noted less often is noted in the same order. -/
theorem Machine.log_sublist {α : Type} {client : Client σ β κ} {m : Machine σ β κ}
    (note : Machine σ β κ → Option α) {note' : Machine σ β κ → Option α} {n : Nat}
    (h : ∀ i, i < n → ∀ a, note' (m.after client i) = some a → note (m.after client i) = some a) :
    List.Sublist (log client note' m n) (log client note m n) := by
  induction n with
  | zero => exact .slnil
  | succ n ih =>
      rw [log_add, log_add, log_one, log_one]
      refine (ih fun i hi => h i (Nat.lt_succ_of_lt hi)).append ?_
      cases hnote : note' (m.after client n) with
      | none => exact List.nil_sublist _
      | some a => rw [h n (Nat.lt_succ_self n) a hnote]

section

variable {client : Client σ β κ} {m : Machine σ β κ} {c : ContextId} {x : MainContext β}
  {t : Timetable β} {id : SourceId} {i j n : Nat}

/-- What is collected does not work on the layers below the iteration. -/
theorem Collection.idle (hreach : Reachable client m) (h : Collection client m c x t j)
    (hid : id ∈ t.ready) : id ∉ ((marks m.stack).flatMap (·.running c)).map (·.1) := by
  obtain ⟨s, hs, hcollects, rfl⟩ := Timetable.collects_of_mem_ready hid
  rw [← h.collects.desk.2]
  exact ((((hreach.after j).desk c).present t h.sources).collects_iff hs).mp hcollects |>.1

/-- The sources have their turns after they were collected. -/
theorem Collection.lt_of_upNext? (hreach : Reachable client m)
    (hm : m.control = .perform (.iterate c)) (hx : m.world.context? c = some x)
    (hbusy : ∀ i, 0 < i → i ≤ j → m.stack.length < (m.after client i).stack.length)
    (h : Collection client m c x t j) (hj : 0 < j)
    (hnext : (m.after client i).upNext? m.stack.length = some id) : j < i := by
  obtain ⟨k, rfl⟩ := Nat.exists_eq_add_one_of_ne_zero (Nat.ne_of_gt hj)
  by_contra hle
  rcases Nat.lt_or_eq_of_le (Nat.le_of_not_lt hle) with hlt | rfl
  · rcases halves_of_iteration hreach hm hx fun i hi hik => hbusy i hi (Nat.le_succ_of_le hik) with
      ⟨-, hnone⟩ | ⟨-, -, rest, -, -, -, -, hdispatching | ⟨-, hend⟩⟩
    · have hmem : id ∈ m.lineup client m.stack.length (k + 1) :=
        List.mem_filterMap.mpr ⟨i, List.mem_range.mpr hlt, hnext⟩
      rw [hnone] at hmem
      cases hmem
    · exact hdispatching.not_collects h.collects
    · exact absurd hend (Machine.stack_ne_of_busy (hbusy _ hj (Nat.le_refl _)))
  · obtain ⟨⟨polled, hs⟩, -⟩ := h.collects
    cases hnext.symm.trans (Machine.upNext?_of_top hs fun _ _ _ _ => nofun)

/-- In an iteration, a source that has its turn starts unless it is gone. -/
theorem starts?_of_iteration (hreach : Reachable client m)
    (hm : m.control = .perform (.iterate c)) (hx : m.world.context? c = some x)
    (hbusy : ∀ i, 0 < i → i ≤ n → m.stack.length < (m.after client i).stack.length) (hi : i ≤ n) :
    (m.after client i).starts? client m.stack.length c =
        ((m.after client i).upNext? m.stack.length).filter
          (fun id => ((m.after client i).source? c id).isSome) ∧
      ∀ id, (m.after client i).upNext? m.stack.length = some id →
        ((m.after client i).Gone c id ↔ (m.after client i).source? c id = none) := by
  cases i with
  | zero =>
      have hnone : m.upNext? m.stack.length = none := by
        unfold Machine.upNext?
        rw [hm]
      refine ⟨?_, fun id hnext => by cases hnone.symm.trans hnext⟩
      show m.starts? client m.stack.length c = (m.upNext? m.stack.length).filter _
      rw [hnone]
      exact if_neg fun h => Nat.ne_of_lt (Nat.lt_succ_self _) h.1
  | succ i =>
      have hat : Machine.Reachable client (m.after client (i + 1)) := hreach.after (i + 1)
      rcases halves_of_iteration hreach hm hx
          fun k hk hki => hbusy k hk (Nat.le_trans hki (Nat.le_of_succ_le hi)) with
        ⟨hpolling, -⟩ | ⟨j, t, rest, -, -, hcollection, hlineup, hdispatching | ⟨-, hend⟩⟩
      · refine ⟨?_, fun id hnext => by cases hpolling.upNext?_eq_none.symm.trans hnext⟩
        rw [hpolling.starts?_eq, hpolling.upNext?_eq_none]
        rfl
      · refine ⟨hdispatching.starts?_eq hat fun id hid => ?_, fun id => hdispatching.gone_iff hat⟩
        exact hcollection.idle hreach (hlineup ▸ List.mem_append_right _ hid)
      · exact absurd hend (Machine.stack_ne_of_busy (hbusy _ (Nat.succ_pos i) hi))

end

/-- **One iteration dispatches one ordered snapshot.** While an iteration is in progress, however its
callbacks and tasks behave, it has started no source yet, or its sources were collected in one moment,
after its pass over the tasks. The snapshot of that moment has exactly the sources that were attached
and did not work then, if they were idle, or timeouts whose deadline had passed and which no enclosing
iteration had collected and not yet come to. It is in strictly ascending order of priority, deadline
or time of attachment, and attachment.

The sources of the snapshot have their turns in this order, and all of them have had theirs when the
iteration is over. What the iteration starts itself it starts in these turns, each source once, and it
starts a source exactly if that is not gone when its turn comes. -/
theorem iteration_dispatches_snapshot (client : Client σ β κ) (m : Machine σ β κ)
    (hreach : Reachable client m) (c : ContextId) (x : MainContext β)
    (hm : m.control = .perform (.iterate c)) (hx : m.world.context? c = some x) (n : Nat)
    (hbusy : ∀ i, 0 < i → i ≤ n → m.stack.length < (m.after client i).stack.length) :
    m.started client m.stack.length c (n + 1) = [] ∧
        m.stack.length < (m.after client (n + 1)).stack.length ∨
      ∃ (j : Nat) (snapshot : List (Source β)), 0 < j ∧ j ≤ n ∧
        (m.after client j).Collects c m.stack ∧
        (∀ s, s ∈ snapshot ↔ (m.after client j).Takes c s) ∧
        snapshot.Pairwise Source.Ahead ∧
        m.lineup client m.stack.length (n + 1) <+: snapshot.map (·.id) ∧
        ((m.after client (n + 1)).stack.length = m.stack.length →
          m.lineup client m.stack.length (n + 1) = snapshot.map (·.id)) ∧
        List.Sublist (m.started client m.stack.length c (n + 1))
          (m.lineup client m.stack.length (n + 1)) ∧
        (m.started client m.stack.length c (n + 1)).Nodup ∧
        ∀ i, i ≤ n → ∀ id, (m.after client i).upNext? m.stack.length = some id → j < i ∧
          (id ∈ m.started client m.stack.length c (n + 1) ↔ ¬ (m.after client i).Gone c id) := by
  have hstarts {i : Nat} (hi : i ≤ n) := starts?_of_iteration hreach hm hx hbusy hi
  have hturns {i : Nat} (hi : i < n + 1) {id : SourceId}
      (h : (m.after client i).starts? client m.stack.length c = some id) :
      (m.after client i).upNext? m.stack.length = some id := by
    rw [(hstarts (Nat.le_of_lt_succ hi)).1] at h
    exact (Option.filter_eq_some_iff.mp h).1
  have hsub : List.Sublist (m.started client m.stack.length c (n + 1))
      (m.lineup client m.stack.length (n + 1)) :=
    Machine.log_sublist (·.upNext? m.stack.length) fun i hi id => hturns hi
  rcases halves_of_iteration hreach hm hx hbusy with
    ⟨hpolling, hnone⟩ | ⟨j, t, rest, hj, hjn, hcollection, hlineup, hend⟩
  · rw [hnone] at hsub
    exact .inl ⟨List.sublist_nil.mp hsub, hpolling.length_lt⟩
  · have hat : Machine.Reachable client (m.after client j) := hreach.after j
    have hsound := (hat.desk c).present t hcollection.sources
    have hnodup : (m.lineup client m.stack.length (n + 1)).Nodup :=
      hsound.nodup_ready.sublist (hlineup ▸ List.sublist_append_left _ _)
    refine .inr ⟨j, t.snapshot, hj, hjn, hcollection.collects, fun s => ?_, hsound.pairwise_snapshot,
      ?_, fun hover => ?_, hsub, hnodup.sublist hsub, fun i hi id hnext => ⟨?_, ?_⟩⟩
    · rw [hsound.mem_snapshot, Machine.Takes.iff_collects hat hcollection.sources]
    · exact hsound.map_snapshot ▸ ⟨rest, hlineup⟩
    · rcases hend with h | ⟨rfl, -⟩
      · exact absurd hover (Nat.ne_of_gt h.length_lt)
      · rw [hsound.map_snapshot, ← hlineup, List.append_nil]
    · exact hcollection.lt_of_upNext? hreach hm hx
        (fun k hk hkj => hbusy k hk (Nat.le_trans hkj hjn)) hj hnext
    · -- the source has this turn only
      have hstarted : id ∈ m.started client m.stack.length c (n + 1) ↔
          (m.after client i).starts? client m.stack.length c = some id := by
        rw [Machine.mem_started]
        refine ⟨?_, fun h => ⟨i, Nat.lt_succ_of_le hi, Machine.starts?_eq_some.mp h⟩⟩
        rintro ⟨k, hk, hdispatches⟩
        have h := Machine.starts?_eq_some.mpr hdispatches
        obtain rfl := Machine.eq_of_upNext? hnodup (Nat.lt_succ_of_le hi) hk hnext (hturns hk h)
        exact h
      rw [hstarted, (hstarts hi).1, (hstarts hi).2 id hnext, hnext, Option.filter_some,
        ← Option.not_isSome_iff_eq_none, not_not, Option.ite_none_right_eq_some]
      exact and_iff_left rfl

/-- A run that stays above a height is checked state by state. -/
theorem Machine.busy_of_throughout {client : Client σ β κ} {m : Machine σ β κ} {height n : Nat}
    (h : (m.step client).throughout client (fun m => decide (height < m.stack.length)) n = true)
    (i : Nat) (hpos : 0 < i) (hi : i ≤ n) : height < (m.after client i).stack.length := by
  obtain ⟨k, rfl⟩ := Nat.exists_eq_add_one_of_ne_zero (Nat.ne_of_gt hpos)
  rw [← after_succ]
  exact of_decide_eq_true (throughout_iff.mp h k hi)

/-- A program with two due timeouts and two idle sources. The first timeout removes an idle source and
iterates itself. -/
def delegator : Client Unit Nat (Routine Nat) :=
  .ofRoutines
    (fun
      | 0 => { acts := [.command (.newContext { clock := .manual }),
          .command (.addTimeout ⟨0⟩ .high 0 false 1), .command (.addTimeout ⟨0⟩ .standard 0 false 2),
          .command (.addIdle ⟨0⟩ .standard false 2), .command (.addIdle ⟨0⟩ .low false 2),
          .command (.iterate ⟨0⟩)] }
      | 1 => { acts := [.command (.removeSource ⟨0⟩ ⟨3⟩), .command (.iterate ⟨0⟩)],
               outcome := .flow false }
      | _ => { outcome := .flow true })
    []

/-- A state of the run of `delegator`. -/
def delegatorAfter (n : Nat) : Machine Unit Nat (Routine Nat) :=
  (Machine.initial () 0).after delegator n

set_option maxRecDepth 100000 in
/-- What the two iterations of `delegator` come to. -/
theorem delegator_runs :
    (delegatorAfter 12).control = .perform (.iterate ⟨0⟩) ∧
    (delegatorAfter 19).control = .perform (.iterate ⟨0⟩) ∧
    (delegatorAfter 12).stack.length = 1 ∧ (delegatorAfter 19).stack.length = 4 ∧
    ((delegatorAfter 12).world.context? ⟨0⟩).isSome = true ∧
    ((delegatorAfter 19).world.context? ⟨0⟩).isSome = true ∧
    ((delegatorAfter 12).step delegator).throughout delegator
      (fun m => decide (1 < m.stack.length)) 25 = true ∧
    ((delegatorAfter 19).step delegator).throughout delegator
      (fun m => decide (4 < m.stack.length)) 6 = true ∧
    ((delegatorAfter 12).after delegator 26).stack.length = 1 ∧
    ((delegatorAfter 19).after delegator 7).stack.length = 4 ∧
    (delegatorAfter 12).lineup delegator 1 26 = [⟨0⟩, ⟨1⟩, ⟨2⟩, ⟨3⟩] ∧
    (delegatorAfter 19).lineup delegator 4 7 = [⟨2⟩] ∧
    (delegatorAfter 12).started delegator 1 ⟨0⟩ 26 = [⟨0⟩, ⟨1⟩, ⟨2⟩] ∧
    ((delegatorAfter 12).after delegator 24).upNext? 1 = some ⟨3⟩ := by
  cbv

/-- The outer iteration of `delegator` takes all four sources and starts three of them, the inner one
takes only the idle source that is left: the other due timeout is on the list of the outer one. -/
theorem iteration_dispatches_snapshot_delegator :
    (delegatorAfter 12).control = .perform (.iterate ⟨0⟩) ∧
      (∃ snapshot : List (Source Nat), snapshot.Pairwise Source.Ahead ∧
        snapshot.map (·.id) = [⟨0⟩, ⟨1⟩, ⟨2⟩, ⟨3⟩]) ∧
      (delegatorAfter 12).started delegator 1 ⟨0⟩ 26 = [⟨0⟩, ⟨1⟩, ⟨2⟩] ∧
      ((delegatorAfter 12).after delegator 24).Gone ⟨0⟩ ⟨3⟩ ∧
      (delegatorAfter 19).control = .perform (.iterate ⟨0⟩) ∧
      ∃ (j : Nat) (snapshot : List (Source Nat)),
        ((delegatorAfter 19).after delegator j).Collects ⟨0⟩ (delegatorAfter 19).stack ∧
        (∀ s, s ∈ snapshot ↔ ((delegatorAfter 19).after delegator j).Takes ⟨0⟩ s) ∧
        snapshot.map (·.id) = [⟨2⟩] := by
  have hreach (n : Nat) : Reachable delegator (delegatorAfter n) :=
    (Machine.Reachable.initial () 0).after n
  obtain ⟨hm, hm', hlength, hlength', hcontext, hcontext', hrun, hrun', hover, hover', hlineup,
    hlineup', hstarted, hnext⟩ := delegator_runs
  obtain ⟨x, hx⟩ := Option.isSome_iff_exists.mp hcontext
  obtain ⟨x', hx'⟩ := Option.isSome_iff_exists.mp hcontext'
  have hbusy := Machine.busy_of_throughout hrun
  have hbusy' := Machine.busy_of_throughout hrun'
  have houter := iteration_dispatches_snapshot delegator (delegatorAfter 12) (hreach 12) ⟨0⟩ x hm hx
    25 (hlength ▸ hbusy)
  have hinner := iteration_dispatches_snapshot delegator (delegatorAfter 19) (hreach 19) ⟨0⟩ x' hm'
    hx' 6 (hlength' ▸ hbusy')
  rw [hlength] at houter
  rw [hlength'] at hinner
  rcases houter with ⟨hnone, -⟩ | ⟨j, snapshot, -, -, -, -, hordered, -, hall, -, -, hturns⟩
  · cases hnone.symm.trans hstarted
  rcases hinner with ⟨-, hbusy⟩ | ⟨j', snapshot', -, -, hcollects, htakes, -, -, hall', -⟩
  · exact absurd hover' (Nat.ne_of_gt hbusy)
  refine ⟨hm, ⟨snapshot, hordered, (hall hover).symm.trans hlineup⟩, hstarted, ?_, hm', j', snapshot',
    hcollects, htakes, (hall' hover').symm.trans hlineup'⟩
  by_contra hthere
  have hin := (hturns 24 (by decide) ⟨3⟩ hnext).2.mpr hthere
  rw [hstarted] at hin
  revert hin
  decide

end ObjectSystem
