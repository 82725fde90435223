import Mathlib.Data.List.Nodup
import ObjectSystem.Proofs.Desk

/-!
# Reading a timeout queue

The queue of a context is in order, so what is read off its front is read off all of it: the due
entries are those whose deadline has passed (`mem_due`), and the first entry that is not stale has
the earliest deadline of those that are not (`first?_spec`). A timeout is *due* when its entry is,
and it is collected if it does not run; `mem_ready` says what an iteration collects and
`count_ready` how often.
-/

namespace ObjectSystem

variable {β : Type}

namespace TimeoutQueue

variable {q : TimeoutQueue} {s : Source β} {e : TimeoutEntry} {now : Nat}

/-! ## Entering -/

theorem mem_enter : e ∈ (q.enter s).entries ↔
    s.kind.isIdle = false ∧ e = s.entry ∨ e ∈ q.entries := by
  unfold enter
  split
  · next h => simp [h]
  · next h => simp [h, mem_insert]

theorem count_insert (e f : TimeoutEntry) (entries : List TimeoutEntry) :
    (insert e entries).count f = entries.count f + if e = f then 1 else 0 := by
  induction entries with
  | nil => simp [insert, List.count_cons, List.count_nil]
  | cons g rest ih =>
      unfold insert
      split
      · rw [List.count_cons, ih, List.count_cons]
        omega
      · simp [List.count_cons]

/-- A timeout enters once. -/
theorem count_enter (h : s.kind.isIdle = false) :
    (q.enter s).entries.count e = q.entries.count e + if s.entry = e then 1 else 0 := by
  unfold enter
  rw [if_neg (by simp [h])]
  exact count_insert s.entry e q.entries

theorem count_enter_of_ne (h : s.entry ≠ e) : (q.enter s).entries.count e = q.entries.count e := by
  cases hkind : s.kind.isIdle with
  | true => rw [enter, if_pos hkind]
  | false => rw [count_enter hkind, if_neg h, Nat.add_zero]

/-! ## The due entries -/

/-- In an ordered list, the entries up to some deadline are those in front. -/
theorem takeWhile_eq_filter {entries : List TimeoutEntry}
    (h : entries.Pairwise (·.readyAt ≤ ·.readyAt)) (now : Nat) :
    entries.takeWhile (·.readyAt ≤ now) = entries.filter (·.readyAt ≤ now) ∧
      entries.dropWhile (·.readyAt ≤ now) = entries.filter (now < ·.readyAt) := by
  induction entries with
  | nil => exact ⟨rfl, rfl⟩
  | cons f rest ih =>
      obtain ⟨hf, hrest⟩ := List.pairwise_cons.mp h
      obtain ⟨htake, hdrop⟩ := ih hrest
      by_cases hdue : f.readyAt ≤ now
      · simp [hdue, htake, hdrop, Nat.not_lt.mpr hdue]
      · -- neither is anything behind it
        have hlater : ∀ g ∈ rest, now < g.readyAt := fun g hg =>
          Nat.lt_of_lt_of_le (Nat.lt_of_not_le hdue) (hf g hg)
        have hnone : rest.filter (·.readyAt ≤ now) = [] :=
          List.filter_eq_nil_iff.mpr fun g hg => by simpa using hlater g hg
        have hall : rest.filter (now < ·.readyAt) = rest :=
          List.filter_eq_self.mpr fun g hg => by simpa using hlater g hg
        simp [hdue, hnone, hall, Nat.lt_of_not_le hdue]

theorem due_eq (q : TimeoutQueue) (now : Nat) : q.due now = q.entries.filter (·.readyAt ≤ now) :=
  (takeWhile_eq_filter q.ordered now).1

theorem afterDue_eq (q : TimeoutQueue) (now : Nat) :
    (q.afterDue now).entries = q.entries.filter (now < ·.readyAt) :=
  (takeWhile_eq_filter q.ordered now).2

theorem mem_due : e ∈ q.due now ↔ e ∈ q.entries ∧ e.readyAt ≤ now := by
  rw [due_eq, List.mem_filter, decide_eq_true_eq]

theorem mem_afterDue : e ∈ (q.afterDue now).entries ↔ e ∈ q.entries ∧ now < e.readyAt := by
  rw [afterDue_eq, List.mem_filter, decide_eq_true_eq]

/-- An entry leaves the queue or stays in it. -/
theorem count_due_add (q : TimeoutQueue) (now : Nat) (e : TimeoutEntry) :
    (q.due now).count e + (q.afterDue now).entries.count e = q.entries.count e := by
  show (q.entries.takeWhile _).count e + (q.entries.dropWhile _).count e = _
  rw [← List.count_append, List.takeWhile_append_dropWhile]

/-! ## The first entry -/

theorem first?_eq_find? (q : TimeoutQueue) (isStale : TimeoutEntry → Bool) :
    q.first? isStale = q.entries.find? (!isStale ·) := by
  unfold first?
  generalize q.entries = entries
  induction entries with
  | nil => rfl
  | cons f rest ih => cases hf : isStale f <;> simp [hf, ih]

theorem stale_of_first?_eq_none {isStale : TimeoutEntry → Bool} (h : q.first? isStale = none) :
    ∀ f ∈ q.entries, isStale f = true := by
  rw [first?_eq_find?, List.find?_eq_none] at h
  exact fun f hf => by simpa using h f hf

/-- The first entry that is not stale has the earliest deadline of all that are not. -/
theorem first?_spec {isStale : TimeoutEntry → Bool} (h : q.first? isStale = some e) :
    e ∈ q.entries ∧ isStale e = false ∧
      ∀ f ∈ q.entries, isStale f = false → e.readyAt ≤ f.readyAt := by
  rw [first?_eq_find?, List.find?_eq_some_iff_append] at h
  obtain ⟨he, before, after, hentries, hbefore⟩ := h
  have hordered := q.ordered
  rw [hentries] at hordered ⊢
  refine ⟨by simp, by simpa using he, fun f hf hlive => ?_⟩
  rcases List.mem_append.mp hf with hf | hf
  · have hstale := hbefore f hf
    simp [hlive] at hstale
  · rcases List.mem_cons.mp hf with rfl | hf
    · exact Nat.le_refl _
    · exact (List.pairwise_cons.mp (List.pairwise_append.mp hordered).2.1).1 f hf

end TimeoutQueue

theorem Source.entry_eq {s : Source β} {e : TimeoutEntry} (hid : s.id = e.id)
    (hready : s.readyAt = e.readyAt) : s.entry = e := by
  unfold entry
  rw [hid, hready]

/-! ## What an iteration collects -/

namespace Timetable

variable {t : Timetable β} {id : SourceId} {s : Source β}

/-- A timeout waits in the queue. -/
def Armed (t : Timetable β) (s : Source β) : Prop :=
  s.entry ∈ t.queue.entries

/-- A timeout waits in the queue and its deadline has passed. -/
def Due (t : Timetable β) (s : Source β) : Prop :=
  t.Armed s ∧ s.readyAt ≤ t.now

/-- An iteration that begins now collects the source. -/
def Collects (t : Timetable β) (s : Source β) : Prop :=
  s.isReadyIdle = true ∨ t.Due s ∧ s.running = false

/-- A timeout is collected when it is due. -/
theorem Collects.due (h : t.Collects s) (htimeout : s.kind.isIdle = false) :
    t.Due s ∧ s.running = false :=
  h.resolve_left fun hidle => by simp [Source.isReadyIdle, htimeout] at hidle

theorem mem_of_source? (h : t.source? id = some s) : s ∈ t.sources ∧ s.id = id := by
  refine ⟨List.mem_of_find?_eq_some h, ?_⟩
  simpa using List.find?_some h

theorem source?_of_mem (hnodup : (t.sources.map (·.id)).Nodup) (hs : s ∈ t.sources) :
    t.source? s.id = some s := by
  cases hfound : t.source? s.id with
  | none =>
      have hne := List.find?_eq_none.mp hfound s hs
      simp at hne
  | some r =>
      obtain ⟨hr, hid⟩ := mem_of_source? hfound
      rw [List.inj_on_of_nodup_map hnodup hr hs hid]

theorem timeout?_eq_some {e : TimeoutEntry} :
    t.timeout? e = some s ↔ t.source? e.id = some s ∧ s.readyAt = e.readyAt ∧ s.running = false := by
  unfold timeout?
  rw [Option.filter_eq_some_iff]
  simp

theorem timeout?_of_entry (hnodup : (t.sources.map (·.id)).Nodup) (hs : s ∈ t.sources)
    (hrun : s.running = false) : t.timeout? s.entry = some s :=
  timeout?_eq_some.mpr ⟨source?_of_mem hnodup hs, rfl, hrun⟩

theorem ready_perm (t : Timetable β) : t.ready.Perm
    (((t.queue.due t.now).filterMap t.timeout? ++ t.sources.filter (·.isReadyIdle)).map (·.id)) :=
  (List.mergeSort_perm _ _).map _

theorem collects_of_mem_ready (h : id ∈ t.ready) : ∃ s ∈ t.sources, t.Collects s ∧ s.id = id := by
  obtain ⟨s, hs, hid⟩ := List.mem_map.mp (t.ready_perm.mem_iff.mp h)
  rcases List.mem_append.mp hs with hs | hs
  · obtain ⟨e, he, htimeout⟩ := List.mem_filterMap.mp hs
    obtain ⟨hsource, hready, hrun⟩ := timeout?_eq_some.mp htimeout
    obtain ⟨hmem, hsid⟩ := mem_of_source? hsource
    obtain ⟨hentered, hdue⟩ := TimeoutQueue.mem_due.mp he
    have hentry : s.entry = e := Source.entry_eq hsid hready
    refine ⟨s, hmem, .inr ⟨⟨?_, Nat.le_trans (Nat.le_of_eq hready) hdue⟩, hrun⟩, hid⟩
    rwa [← hentry] at hentered
  · obtain ⟨hs, hidle⟩ := List.mem_filter.mp hs
    exact ⟨s, hs, .inl hidle, hid⟩

theorem mem_ready (hnodup : (t.sources.map (·.id)).Nodup) (hs : s ∈ t.sources)
    (hcollects : t.Collects s) : s.id ∈ t.ready := by
  refine t.ready_perm.mem_iff.mpr (List.mem_map_of_mem (List.mem_append.mpr ?_))
  rcases hcollects with hidle | ⟨⟨hentered, hdue⟩, hrun⟩
  · exact .inr (List.mem_filter.mpr ⟨hs, hidle⟩)
  · exact .inl (List.mem_filterMap.mpr
      ⟨s.entry, TimeoutQueue.mem_due.mpr ⟨hentered, hdue⟩, timeout?_of_entry hnodup hs hrun⟩)

/-- Of the entries of some list, those of a timeout that does not run stand for it. -/
theorem count_timeouts (hnodup : (t.sources.map (·.id)).Nodup) (hs : s ∈ t.sources)
    (entries : List TimeoutEntry) : ((entries.filterMap t.timeout?).map (·.id)).count s.id =
      if s.running then 0 else entries.count s.entry := by
  induction entries with
  | nil => simp
  | cons e rest ih =>
      rw [List.filterMap_cons]
      cases he : t.timeout? e with
      | none =>
          -- the entry is not that of the timeout, unless that runs
          dsimp only
          rw [ih]
          split
          · rfl
          · next hrun =>
              rw [List.count_cons_of_ne]
              rintro rfl
              cases he.symm.trans (timeout?_of_entry hnodup hs (by simpa using hrun))
      | some r =>
          obtain ⟨hsource, hready, hrun⟩ := timeout?_eq_some.mp he
          obtain ⟨hr, hrid⟩ := mem_of_source? hsource
          dsimp only
          rw [List.map_cons]
          by_cases hid : r.id = s.id
          · have hrs : r = s := List.inj_on_of_nodup_map hnodup hr hs hid
            subst hrs
            have hentry : e = r.entry := (Source.entry_eq hrid hready).symm
            rw [List.count_cons_self, ih, hrun, hentry, List.count_cons_self]
            rfl
          · rw [List.count_cons_of_ne hid, ih, List.count_cons_of_ne]
            rintro rfl
            exact hid hrid

/-- A timeout is collected as often as it is in the due part of the queue, unless it runs. -/
theorem count_ready (hnodup : (t.sources.map (·.id)).Nodup) (hs : s ∈ t.sources)
    (htimeout : s.kind.isIdle = false) :
    t.ready.count s.id = if s.running then 0 else (t.queue.due t.now).count s.entry := by
  have hidle : ((t.sources.filter (·.isReadyIdle)).map (·.id)).count s.id = 0 := by
    refine List.count_eq_zero_of_not_mem fun hmem => ?_
    obtain ⟨r, hr, hid⟩ := List.mem_map.mp hmem
    obtain ⟨hr, hidle⟩ := List.mem_filter.mp hr
    have hrs : r = s := List.inj_on_of_nodup_map hnodup hr hs hid
    subst hrs
    simp [Source.isReadyIdle, htimeout] at hidle
  rw [t.ready_perm.count_eq, List.map_append, List.count_append, count_timeouts hnodup hs, hidle,
    Nat.add_zero]

end Timetable

/-! ## What a context reads -/

namespace MainContext

variable {x : MainContext β} {s : Source β} {e : TimeoutEntry} {deadline : Nat}

theorem isStale_eq_false : x.isStale e = false ↔
    ∃ s, x.source? e.id = some s ∧ s.readyAt = e.readyAt := by
  unfold isStale
  cases hs : x.source? e.id with
  | none => simp
  | some s => simp

theorem entry_of_live (h : x.isStale e = false) : ∃ s ∈ x.sources, s.entry = e := by
  obtain ⟨s, hs, hready⟩ := isStale_eq_false.mp h
  obtain ⟨hmem, hid⟩ := Timetable.mem_of_source? (t := x.timetable) hs
  exact ⟨s, hmem, Source.entry_eq hid hready⟩

/-- The entry of an attached source is not stale. -/
theorem live_of_mem (hnodup : (x.sources.map (·.id)).Nodup) (hs : s ∈ x.sources) :
    x.isStale s.entry = false :=
  isStale_eq_false.mpr ⟨s, Timetable.source?_of_mem (t := x.timetable) hnodup hs, rfl⟩

/-- Without a deadline no timeout is in the queue. -/
theorem not_armed_of_nextDeadline (hnodup : (x.sources.map (·.id)).Nodup)
    (h : x.nextDeadline = none) (hs : s ∈ x.sources) : ¬ x.timetable.Armed s := by
  intro harmed
  have hstale := TimeoutQueue.stale_of_first?_eq_none (Option.map_eq_none_iff.mp h) _ harmed
  cases hstale.symm.trans (live_of_mem hnodup hs)

/-- The next deadline is that of a timeout in the queue, and no other is earlier. -/
theorem nextDeadline_spec (hnodup : (x.sources.map (·.id)).Nodup)
    (h : x.nextDeadline = some deadline) :
    (∃ s ∈ x.sources, x.timetable.Armed s ∧ s.readyAt = deadline) ∧
      ∀ s ∈ x.sources, x.timetable.Armed s → deadline ≤ s.readyAt := by
  obtain ⟨e, hfirst, rfl⟩ := Option.map_eq_some_iff.mp h
  obtain ⟨he, hlive, hleast⟩ := TimeoutQueue.first?_spec hfirst
  refine ⟨?_, fun s hs harmed => hleast s.entry harmed (live_of_mem hnodup hs)⟩
  obtain ⟨s, hs, rfl⟩ := entry_of_live hlive
  exact ⟨s, hs, he, rfl⟩

/-- What is pending: a task, an idle source that does not run, or a due timeout. -/
theorem pending_iff (hnodup : (x.sources.map (·.id)).Nodup) : x.pending = true ↔
    x.tasksReady = true ∨ (∃ s ∈ x.sources, s.isReadyIdle = true) ∨
      ∃ s ∈ x.sources, x.timetable.Due s := by
  unfold pending
  rw [Bool.or_eq_true, Bool.or_eq_true, List.any_eq_true, or_assoc]
  refine or_congr_right (or_congr_right ⟨fun h => ?_, fun ⟨s, hs, harmed, hdue⟩ => ?_⟩)
  · obtain ⟨e, hfirst, hdue⟩ := (Option.any_eq_true _ _).mp h
    obtain ⟨he, hlive, -⟩ := TimeoutQueue.first?_spec hfirst
    obtain ⟨s, hs, rfl⟩ := entry_of_live hlive
    exact ⟨s, hs, he, of_decide_eq_true hdue⟩
  · have hlive := live_of_mem hnodup hs
    -- the first entry that counts is no later than that of the due timeout
    cases hfirst : x.queue.first? x.isStale with
    | none =>
        have hstale := TimeoutQueue.stale_of_first?_eq_none hfirst _ harmed
        cases hstale.symm.trans hlive
    | some e =>
        have hle := (TimeoutQueue.first?_spec hfirst).2.2 _ harmed hlive
        exact decide_eq_true (Nat.le_trans hle hdue)

end MainContext

end ObjectSystem
