import Mathlib
import ObjectSystem.Proofs.Passes

/-!
# Where tasks go

Every task that was ever spawned on a context is held by it, has completed, or was lost: a pass that
ends puts its set in place of the one that nested passes left, and the tasks in that one are let go of
without being counted as finished. `tasks_accounted` balances the books, and says that nothing is
lost, and the count of tasks is right, exactly as long as no pass discards a task in this way. Only a
pass within a pass can bring it about.
-/

namespace ObjectSystem

variable {σ β κ : Type}

open Machine (Reachable Manned Orderly)

/-! ## Accounts -/

namespace Machine

/-- The tasks of a context that a step lets go of without having them complete. -/
def loses (m m' : Machine σ β κ) (c : ContextId) : List TaskId :=
  (m.world.roster c).held.filter fun id =>
    id ∉ (m'.world.roster c).held ∧ id ∉ m.completes c

/-- The books of a context, given the tasks that have completed and those that were lost. -/
structure Accounted (m : Machine σ β κ) (c : ContextId) (done lost : List TaskId) : Prop where
  perm : ((m.world.roster c).held ++ done ++ lost).Perm
    ((List.range (m.world.roster c).nextTask).map TaskId.mk)
  live : (m.world.roster c).liveTasks =
    (m.world.roster c).held.length + lost.length + ((m.passes c).map (·.finished)).sum

end Machine

/-- A list without duplicates, one entry at the front. -/
theorem perm_cons_filter {ids : List TaskId} (hnodup : ids.Nodup) {id : TaskId} (hmem : id ∈ ids) :
    ids.Perm (id :: ids.filter (· ≠ id)) := by
  have hcons : (id :: ids.filter (· ≠ id)).Nodup :=
    List.nodup_cons.mpr ⟨by simp, hnodup.filter _⟩
  refine (List.perm_ext_iff_of_nodup hnodup hcons).mpr fun other => ?_
  by_cases hother : other = id
  · simp [hother, hmem]
  · simp [hother]

section

variable {m m' : Machine σ β κ} {c : ContextId} {done lost : List TaskId}

open Machine (Accounted)

theorem Machine.Accounted.nodup (h : Accounted m c done lost) : (m.world.roster c).held.Nodup := by
  have hall : ((List.range (m.world.roster c).nextTask).map TaskId.mk).Nodup :=
    List.Nodup.map (fun _ _ hab => congrArg TaskId.number hab) List.nodup_range
  have := h.perm.nodup_iff.mpr hall
  exact ((List.nodup_append.mp (List.nodup_append.mp this).1)).1

/-- Every pass in progress keeps its set. -/
theorem Shift.manned (h : Shift m m' c) (hm : Manned m c) : Manned m' c := by
  unfold Machine.Manned at hm ⊢
  cases h with
  | still hr hp _ _ => rwa [hr, hp]
  | spawns hr hp _ _ => rwa [hr, hp]
  | begins hr hp _ _ =>
      rw [hr, hp]
      exact .cons (fun _ hid => (by cases hid)) hm
  | polls p p' ps ids ids' rest hp hrest hids hr hp' hfinished hcurrent hdone hdiscards =>
      rw [hp, hrest] at hm
      rw [hr, hp']
      exact .cons hcurrent (List.forall₂_cons.mp hm).2
  | completes p ps ids rest id hp hrest hcurrent hr hp' hdone hdiscards =>
      rw [hp, hrest] at hm
      rw [hr, hp']
      exact .cons (fun _ hid => (by cases hid)) (List.forall₂_cons.mp hm).2
  | discards p p' ps ids ids' rest id hp hrest hids hlast hr hp' hfinished hcurrent hdone
      hdiscards =>
      rw [hp, hrest] at hm
      rw [hr, hp']
      exact .cons hcurrent (List.forall₂_cons.mp hm).2
  | ends p ps ids ids' rest hp hrest hids htasks hr hp' hdone hdiscards =>
      rw [hp, hrest] at hm
      rw [hr, hp']
      exact (List.forall₂_cons.mp hm).2

/-- A step that lets go of no task keeps the books. -/
theorem Machine.Accounted.keeps (h : Accounted m c done lost)
    (hheld : (m'.world.roster c).held.Perm (m.world.roster c).held)
    (hnext : (m'.world.roster c).nextTask = (m.world.roster c).nextTask)
    (hlive : (m'.world.roster c).liveTasks + ((m.passes c).map (·.finished)).sum =
      (m.world.roster c).liveTasks + ((m'.passes c).map (·.finished)).sum)
    (hdone : m.completes c = []) :
    Accounted m' c (done ++ m.completes c) (lost ++ m.loses m' c) ∧ m.loses m' c = [] := by
  have hnone : m.loses m' c = [] := by
    refine List.filter_eq_nil_iff.mpr fun id hid => ?_
    have := hheld.mem_iff.mpr hid
    simp [this]
  refine ⟨⟨?_, ?_⟩, hnone⟩
  · rw [hdone, hnone, List.append_nil, List.append_nil, hnext]
    exact ((hheld.append_right done).append_right lost).trans h.perm
  · have hlength := hheld.length_eq
    have := h.live
    rw [hnone, List.append_nil]
    omega

/-- The only task that a step lets go of has completed or is lost. -/
theorem loses_of_perm {id : TaskId} (hnodup : (m.world.roster c).held.Nodup)
    (hheld : (m.world.roster c).held.Perm (id :: (m'.world.roster c).held)) :
    m.loses m' c = if id ∈ m.completes c then [] else [id] := by
  have hnotin : id ∉ (m'.world.roster c).held :=
    (List.nodup_cons.mp (hheld.nodup_iff.mp hnodup)).1
  have hrest : ((m'.world.roster c).held.filter fun id =>
      id ∉ (m'.world.roster c).held ∧ id ∉ m.completes c) = [] :=
    List.filter_eq_nil_iff.mpr fun other hother => by simp [hother]
  have hfilter := hheld.filter fun id => id ∉ (m'.world.roster c).held ∧ id ∉ m.completes c
  rw [List.filter_cons, hrest] at hfilter
  unfold Machine.loses
  split
  · next hmem => simpa [hmem] using hfilter
  · next hmem => simpa [hmem, hnotin] using hfilter

/-- A step with which one task leaves puts it on the books. -/
theorem Machine.Accounted.leaves (h : Accounted m c done lost) {id : TaskId}
    (hheld : (m.world.roster c).held.Perm (id :: (m'.world.roster c).held))
    (hnext : (m'.world.roster c).nextTask = (m.world.roster c).nextTask)
    (hlive : (m'.world.roster c).liveTasks = (m.world.roster c).liveTasks)
    (hout : (m.completes c = [id] ∧ m.loses m' c = [] ∧
        ((m'.passes c).map (·.finished)).sum = ((m.passes c).map (·.finished)).sum + 1) ∨
      m.completes c = [] ∧ m.loses m' c = [id] ∧
        ((m'.passes c).map (·.finished)).sum = ((m.passes c).map (·.finished)).sum) :
    Accounted m' c (done ++ m.completes c) (lost ++ m.loses m' c) := by
  have hlength := hheld.length_eq
  rw [List.length_cons] at hlength
  have hcount := List.perm_iff_count.mp h.perm
  have hcount' := List.perm_iff_count.mp hheld
  have hbalance := h.live
  rcases hout with ⟨hdone, hlost, hsum⟩ | ⟨hdone, hlost, hsum⟩
  · refine ⟨List.perm_iff_count.mpr fun other => ?_, ?_⟩
    · have h₁ := hcount other
      have h₂ := hcount' other
      rw [hdone, hlost, hnext]
      simp only [List.count_append, List.count_cons, List.count_nil] at h₁ h₂ ⊢
      omega
    · rw [hlost, List.append_nil, hlive, hsum]
      omega
  · refine ⟨List.perm_iff_count.mpr fun other => ?_, ?_⟩
    · have h₁ := hcount other
      have h₂ := hcount' other
      rw [hdone, hlost, hnext]
      simp only [List.count_append, List.count_cons, List.count_nil] at h₁ h₂ ⊢
      omega
    · rw [hlost, List.length_append, List.length_singleton, hlive, hsum]
      omega

/-- A new task is held. -/
theorem Machine.Accounted.spawns (h : Accounted m c done lost)
    (hr : m'.world.roster c = (m.world.roster c).spawn) (hp : m'.passes c = m.passes c)
    (hdone : m.completes c = []) :
    Accounted m' c (done ++ m.completes c) (lost ++ m.loses m' c) ∧ m.loses m' c = [] := by
  have hheld : (m'.world.roster c).held.Perm
      (⟨(m.world.roster c).nextTask⟩ :: (m.world.roster c).held) := by
    rw [hr]
    refine List.perm_iff_count.mpr fun other => ?_
    simp only [Roster.held, Roster.spawn, List.count_append, List.count_cons, List.count_nil]
    omega
  have hnone : m.loses m' c = [] := by
    refine List.filter_eq_nil_iff.mpr fun id hid => ?_
    have := hheld.mem_iff.mpr (List.mem_cons_of_mem _ hid)
    simp [this]
  have hnext : (m'.world.roster c).nextTask = (m.world.roster c).nextTask + 1 := by
    rw [hr]
    rfl
  refine ⟨⟨List.perm_iff_count.mpr fun other => ?_, ?_⟩, hnone⟩
  · have h₁ := List.perm_iff_count.mp h.perm other
    have h₂ := List.perm_iff_count.mp hheld other
    rw [hdone, hnone, hnext, List.range_succ, List.map_append]
    simp only [List.count_append, List.count_cons, List.count_nil, List.map_cons, List.map_nil]
      at h₁ h₂ ⊢
    omega
  · have hlength := hheld.length_eq
    have hbalance := h.live
    have hlive : (m'.world.roster c).liveTasks = (m.world.roster c).liveTasks + 1 := by
      rw [hr]
      rfl
    rw [hnone, List.append_nil, hp, hlive]
    rw [List.length_cons] at hlength
    omega

/-- A shift keeps the books, and a task is lost exactly if it is discarded. -/
theorem Shift.accounted (h : Shift m m' c) (hmanned : Manned m c) (hacc : Accounted m c done lost) :
    Accounted m' c (done ++ m.completes c) (lost ++ m.loses m' c) ∧
      (m.loses m' c = [] ↔ m'.discards c = false) := by
  have hnodup := hacc.nodup
  cases h with
  | still hr hp hdone hdiscards =>
      obtain ⟨hacc', hnone⟩ : Accounted m' c _ _ ∧ m.loses m' c = [] :=
        hacc.keeps (by rw [hr]) (by rw [hr]) (by rw [hr, hp]) hdone
      exact ⟨hacc', iff_of_true hnone hdiscards⟩
  | spawns hr hp hdone hdiscards =>
      obtain ⟨hacc', hnone⟩ := hacc.spawns hr hp hdone
      exact ⟨hacc', iff_of_true hnone hdiscards⟩
  | begins hr hp hdone hdiscards =>
      have hheld : (m'.world.roster c).held.Perm (m.world.roster c).held := by
        rw [hr]
        refine List.perm_iff_count.mpr fun id => ?_
        simp only [Roster.held, Roster.beginPass, List.flatten_cons, List.count_append,
          List.count_nil]
        omega
      obtain ⟨hacc', hnone⟩ := hacc.keeps hheld (by rw [hr]; rfl)
        (by rw [hr, hp]; simp [Roster.beginPass]) hdone
      exact ⟨hacc', iff_of_true hnone hdiscards⟩
  | polls p p' ps ids ids' rest hp hrest hids hr hp' hfinished hcurrent hdone hdiscards =>
      have hheld : (m'.world.roster c).held.Perm (m.world.roster c).held := by
        rw [hr]
        refine List.perm_iff_count.mpr fun id => ?_
        simp only [Roster.held, hrest, List.flatten_cons, List.count_append, hids.count_eq]
      obtain ⟨hacc', hnone⟩ := hacc.keeps hheld (by rw [hr])
        (by rw [hr, hp, hp']; simp [hfinished]) hdone
      exact ⟨hacc', iff_of_true hnone hdiscards⟩
  | completes p ps ids rest id hp hrest hcurrent hr hp' hdone hdiscards =>
      have hmem : id ∈ ids := by
        unfold Machine.Manned at hmanned
        rw [hp, hrest] at hmanned
        exact (List.forall₂_cons.mp hmanned).1 id hcurrent
      have hids : ids.Nodup := by
        unfold Roster.held at hnodup
        rw [hrest, List.flatten_cons] at hnodup
        exact (List.nodup_append.mp (List.nodup_append.mp hnodup).2.1).1
      have hheld : (m.world.roster c).held.Perm (id :: (m'.world.roster c).held) := by
        have hperm := perm_cons_filter hids hmem
        rw [hr]
        refine List.perm_iff_count.mpr fun other => ?_
        have h₁ := hperm.count_eq other
        simp only [Roster.held, hrest, List.flatten_cons, List.count_append, List.count_cons]
          at h₁ ⊢
        omega
      have hnone : m.loses m' c = [] := by
        rw [loses_of_perm hnodup hheld, hdone]
        exact if_pos (List.mem_singleton.mpr rfl)
      refine ⟨hacc.leaves hheld (by rw [hr]) (by rw [hr]) (.inl ⟨hdone, hnone, ?_⟩),
        iff_of_true hnone hdiscards⟩
      rw [hp, hp']
      simp only [List.map_cons, List.sum_cons]
      omega
  | discards p p' ps ids ids' rest id hp hrest hids hlast hr hp' hfinished hcurrent hdone
      hdiscards =>
      have hmem : id ∈ (m.world.roster c).tasks := List.mem_of_getLast? hlast
      have htasks : (m.world.roster c).tasks.Nodup := by
        unfold Roster.held at hnodup
        exact (List.nodup_append.mp (List.nodup_append.mp hnodup).1).2.1
      have hheld : (m.world.roster c).held.Perm (id :: (m'.world.roster c).held) := by
        have hperm := perm_cons_filter htasks hmem
        rw [hr]
        refine List.perm_iff_count.mpr fun other => ?_
        have h₁ := hperm.count_eq other
        simp only [Roster.held, hrest, List.flatten_cons, List.count_append, List.count_cons,
          hids.count_eq] at h₁ ⊢
        omega
      have hlost : m.loses m' c = [id] := by
        rw [loses_of_perm hnodup hheld, hdone]
        rfl
      refine ⟨hacc.leaves hheld (by rw [hr]) (by rw [hr]) (.inr ⟨hdone, hlost, ?_⟩), ?_⟩
      · rw [hp, hp']
        simp [hfinished]
      · rw [hlost, hdiscards]
        simp
  | ends p ps ids ids' rest hp hrest hids htasks hr hp' hdone hdiscards =>
      have hheld : (m'.world.roster c).held.Perm (m.world.roster c).held := by
        rw [hr]
        refine List.perm_iff_count.mpr fun id => ?_
        simp only [Roster.held, hrest, htasks, List.flatten_cons, List.count_append, List.count_nil,
          hids.count_eq]
        omega
      have hbalance := hacc.live
      rw [hp, List.map_cons, List.sum_cons] at hbalance
      obtain ⟨hacc', hnone⟩ := hacc.keeps hheld (by rw [hr])
        (by rw [hr, hp, hp', List.map_cons, List.sum_cons]; dsimp only; omega) hdone
      exact ⟨hacc', iff_of_true hnone hdiscards⟩

end

/-- A pass that is not within another finds nothing to discard. -/
theorem Shift.flat {m m' : Machine σ β κ} {c : ContextId} (h : Shift m m' c)
    (hone : (m.passes c).length ≤ 1)
    (htasks : m.passes c ≠ [] → (m.world.roster c).tasks = []) :
    (m'.passes c ≠ [] → (m'.world.roster c).tasks = []) ∧ m'.discards c = false := by
  have some_pass {p : Pass} {ps : List Pass} (hp : m.passes c = p :: ps) :
      (m.world.roster c).tasks = [] :=
    htasks (by rw [hp]; exact List.cons_ne_nil p ps)
  cases h with
  | still hr hp hdone hdiscards =>
      rw [hp, hr]
      exact ⟨htasks, hdiscards⟩
  | spawns hr hp hdone hdiscards =>
      rw [hp, hr]
      exact ⟨htasks, hdiscards⟩
  | begins hr hp hdone hdiscards =>
      rw [hr]
      exact ⟨fun _ => rfl, hdiscards⟩
  | polls p p' ps ids ids' rest hp hrest hids hr hp' hfinished hcurrent hdone hdiscards =>
      rw [hr]
      exact ⟨fun _ => some_pass hp, hdiscards⟩
  | completes p ps ids rest id hp hrest hcurrent hr hp' hdone hdiscards =>
      rw [hr]
      exact ⟨fun _ => some_pass hp, hdiscards⟩
  | discards p p' ps ids ids' rest id hp hrest hids hlast hr hp' hfinished hcurrent hdone
      hdiscards =>
      rw [some_pass hp] at hlast
      cases hlast
  | ends p ps ids ids' rest hp hrest hids htasks' hr hp' hdone hdiscards =>
      rw [hp, List.length_cons] at hone
      have hnil : ps = [] := List.eq_nil_of_length_eq_zero (by omega)
      exact ⟨fun hne => absurd (hp'.trans hnil) hne, hdiscards⟩

/-! ## Along a run -/

namespace Machine

variable (client : Client σ β κ) (m : Machine σ β κ) (c : ContextId)

/-- The tasks of a context that complete in the first steps of a run. -/
def completed : Nat → List TaskId
  | 0 => []
  | n + 1 => completed n ++ (m.after client n).completes c

/-- The tasks of a context that are lost in the first steps of a run. -/
def lost : Nat → List TaskId
  | 0 => []
  | n + 1 => lost n ++ (m.after client n).loses (m.after client (n + 1)) c

end Machine

section Run

variable {client : Client σ β κ} {m : Machine σ β κ} {c : ContextId}

/-- In every reachable state passes are in order, and each has its set. -/
theorem Machine.Reachable.orderly (h : Reachable client m) : Orderly m ∧ ∀ d, Manned m d := by
  induction h with
  | initial state callback => exact ⟨.of_clean fun _ hl => (by cases hl), fun _ => .nil⟩
  | step _ ih =>
      obtain ⟨horderly, hmanned⟩ := ih
      exact ⟨horderly.step client hmanned,
        fun d => (shift_step client horderly hmanned d).manned (hmanned d)⟩

/-- Every step of a run is a shift. -/
theorem Machine.Reachable.shift (h : Reachable client m) (c : ContextId) :
    Shift m (m.step client) c :=
  shift_step client h.orderly.1 h.orderly.2 c

variable (hreach : Reachable client m)

include hreach

/-- Books that are opened balanced stay balanced. -/
theorem Machine.Accounted.after (h : Machine.Accounted m c [] []) (n : Nat) :
    Machine.Accounted (m.after client n) c (m.completed client c n) (m.lost client c n) := by
  induction n with
  | zero => exact h
  | succ n ih =>
      have hat := hreach.after n
      exact ((hat.shift c).accounted (hat.orderly.2 c) ih).1

/-- Nothing is lost as long as nothing is discarded. -/
theorem lost_eq_nil_iff (h : Machine.Accounted m c [] []) (n : Nat) :
    m.lost client c n = [] ↔ ∀ k, k < n → (m.after client (k + 1)).discards c = false := by
  induction n with
  | zero => exact iff_of_true rfl fun k hk => absurd hk (Nat.not_lt_zero k)
  | succ n ih =>
      have hat := hreach.after n
      have hstep : (m.after client n).loses (m.after client (n + 1)) c = [] ↔
          (m.after client (n + 1)).discards c = false :=
        ((hat.shift c).accounted (hat.orderly.2 c) (h.after hreach n)).2
      show m.lost client c n ++ _ = [] ↔ _
      rw [List.append_eq_nil_iff, ih, hstep]
      constructor
      · rintro ⟨hbefore, hnow⟩ k hk
        rcases Nat.lt_or_eq_of_le (Nat.le_of_lt_succ hk) with hlt | rfl
        · exact hbefore k hlt
        · exact hnow
      · intro hall
        exact ⟨fun k hk => hall k (Nat.lt_succ_of_lt hk), hall n (Nat.lt_succ_self n)⟩

/-- While no pass is within another, the set of a context is empty during a pass, and no pass finds
anything to discard. -/
theorem not_discards_of_flat (hnone : m.passes c = []) {n : Nat}
    (hflat : ∀ k, k ≤ n → ((m.after client k).passes c).length ≤ 1) :
    ((m.after client n).passes c ≠ [] → ((m.after client n).world.roster c).tasks = []) ∧
      ∀ k, k < n → (m.after client (k + 1)).discards c = false := by
  induction n with
  | zero => exact ⟨fun hne => absurd hnone hne, fun k hk => absurd hk (Nat.not_lt_zero k)⟩
  | succ n ih =>
      obtain ⟨htasks, hbefore⟩ := ih fun k hk => hflat k (Nat.le_succ_of_le hk)
      have hshift : Shift (m.after client n) (m.after client (n + 1)) c :=
        (hreach.after n).shift c
      obtain ⟨htasks', hnow⟩ := hshift.flat (hflat n (Nat.le_succ n)) htasks
      refine ⟨htasks', fun k hk => ?_⟩
      rcases Nat.lt_or_eq_of_le (Nat.le_of_lt_succ hk) with hlt | rfl
      · exact hbefore k hlt
      · exact hnow

end Run

/-- **The books of a context.** In every state in which no task of a context is polled, every task that
was ever spawned on it is held, has completed or is lost, and the count of tasks is that of the held
and the lost ones. So it counts the held tasks, and a task that is not held has completed, exactly if
no pass has discarded tasks that nested passes left; without passes within passes this never happens. -/
theorem tasks_accounted (client : Client σ β κ) (state : σ) (program : β) (c : ContextId) (n : Nat)
    {x : MainContext β}
    (hx : ((Machine.initial state program).after client n).world.context? c = some x)
    (hrest : ((Machine.initial state program).after client n).passes c = []) :
    let m : Machine σ β κ := .initial state program
    let held := (x.spawned ++ x.tasks.tasks).map (·.id)
    (held ++ m.completed client c n ++ m.lost client c n).Perm
        ((List.range x.nextTask).map TaskId.mk) ∧
      x.liveTasks = held.length + (m.lost client c n).length ∧
      ((x.liveTasks = held.length ∧
          ∀ id, id.number < x.nextTask → id ∉ held → id ∈ m.completed client c n) ↔
        ∀ k, k < n → (m.after client (k + 1)).discards c = false) ∧
      ((∀ k, k ≤ n → ((m.after client k).passes c).length ≤ 1) →
        ∀ k, k < n → (m.after client (k + 1)).discards c = false) := by
  intro m held
  have hreach : Reachable client m := .initial state program
  have hopen : Machine.Accounted m c [] [] := ⟨.refl _, rfl⟩
  have hbooks := hopen.after hreach n
  have hroster := World.roster_eq hx
  have hheld : (World.roster (m.after client n).world c).held = held := by
    have hmanned := (hreach.after n).orderly.2 c
    unfold Machine.Manned at hmanned
    rw [hrest] at hmanned
    have hnone := List.forall₂_nil_left_iff.mp hmanned
    unfold Roster.held
    rw [hnone, hroster, List.flatten_nil, List.append_nil]
    exact List.map_append.symm
  have hperm := hbooks.perm
  have hlive := hbooks.live
  rw [hheld, hroster] at hperm hlive
  rw [hrest, List.map_nil, List.sum_nil, Nat.add_zero] at hlive
  have hlive : x.liveTasks = held.length + (m.lost client c n).length := hlive
  refine ⟨hperm, hlive, ?_, fun hflat => (not_discards_of_flat hreach rfl hflat).2⟩
  rw [← lost_eq_nil_iff hreach hopen n]
  constructor
  · rintro ⟨hcount, -⟩
    exact List.eq_nil_of_length_eq_zero (by omega)
  · intro hnone
    rw [hnone, List.append_nil] at hperm
    rw [hnone, List.length_nil, Nat.add_zero] at hlive
    refine ⟨hlive, fun id hid hnot => ?_⟩
    have hmem : id ∈ (List.range x.nextTask).map TaskId.mk :=
      List.mem_map.mpr ⟨id.number, List.mem_range.mpr hid, rfl⟩
    exact (List.mem_append.mp (hperm.mem_iff.mpr hmem)).resolve_left hnot

/-- A program that spawns a task, which spawns another that waits. -/
def spawner : Client Unit Nat (Routine Nat) :=
  .ofRoutines
    (fun
      | 0 => { acts := [.command (.newContext { clock := .manual }),
          .command (.construct { ofClass := .simple .empty [] none, context := ⟨0⟩ }),
          .command (.spawn ⟨0⟩ 1), .command (.runUntilIdle ⟨0⟩)] }
      | 1 => { acts := [.command (.spawn ⟨0⟩ 2)] }
      | _ => { acts := [.command (.awaitEvent ⟨1⟩ "notify" none), .await ⟨0⟩] })
    [.object ⟨1⟩]

set_option maxRecDepth 100000 in
/-- Of the two tasks of `spawner`, one has completed and the other is held. -/
theorem tasks_accounted_spawner :
    let m : Machine Unit Nat (Routine Nat) := .initial () 0
    (m.after spawner 37).passes ⟨0⟩ = [] ∧ m.completed spawner ⟨0⟩ 37 = [⟨0⟩] ∧
      ∃ x, (m.after spawner 37).world.context? ⟨0⟩ = some x ∧ x.nextTask = 2 ∧
        x.liveTasks = ((x.spawned ++ x.tasks.tasks).map (·.id)).length ∧
        ∀ id, id.number < x.nextTask → id ∉ (x.spawned ++ x.tasks.tasks).map (·.id) →
          id ∈ m.completed spawner ⟨0⟩ 37 := by
  intro m
  have hnone : ((m.after spawner 37).passes ⟨0⟩).length = 0 := by decide +kernel
  have hrest : (m.after spawner 37).passes ⟨0⟩ = [] := List.eq_nil_of_length_eq_zero hnone
  have hnext : ((m.after spawner 37).world.context? ⟨0⟩).map (·.nextTask) = some 2 := by
    decide +kernel
  have hflat : ∀ k, k ≤ 37 → ((m.after spawner k).passes ⟨0⟩).length ≤ 1 := by decide +kernel
  obtain ⟨x, hx, hx'⟩ := Option.map_eq_some_iff.mp hnext
  obtain ⟨-, -, hexact, hnever⟩ := tasks_accounted spawner () 0 ⟨0⟩ 37 hx hrest
  obtain ⟨hcount, hleft⟩ := hexact.mpr (hnever hflat)
  exact ⟨hrest, by decide +kernel, x, hx, hx', hcount, hleft⟩

/-- A program that spawns a task, which spawns another that waits, and iterates at once. -/
def nester : Client Unit Nat (Routine Nat) :=
  .ofRoutines
    (fun
      | 0 => { acts := [.command (.newContext { clock := .manual }),
          .command (.construct { ofClass := .simple .empty [] none, context := ⟨0⟩ }),
          .command (.spawn ⟨0⟩ 1), .command (.runUntilIdle ⟨0⟩)] }
      | 1 => { acts := [.command (.spawn ⟨0⟩ 2), .command (.iterate ⟨0⟩)] }
      | _ => { acts := [.command (.awaitEvent ⟨1⟩ "notify" none), .await ⟨0⟩] })
    [.object ⟨1⟩]

set_option maxRecDepth 100000 in
/-- The second task of `nester` is polled in a pass within the pass of the first and waits. When the
outer pass ends, the task is discarded: it is neither held nor has it completed, but counted. -/
theorem lost_by_nested_pass :
    let m : Machine Unit Nat (Routine Nat) := .initial () 0
    (m.after nester 38).stack.length = 1 ∧ ((m.after nester 38).passes ⟨0⟩).length = 0 ∧
      ((m.after nester 38).world.context? ⟨0⟩).map (·.nextTask) = some 2 ∧
      ((m.after nester 38).world.context? ⟨0⟩).map (·.liveTasks) = some 1 ∧
      ((m.after nester 38).world.context? ⟨0⟩).map
        (fun x => (x.spawned ++ x.tasks.tasks).map (·.id)) = some [] ∧
      m.completed nester ⟨0⟩ 38 = [⟨0⟩] ∧ (m.after nester 29).discards ⟨0⟩ = true := by
  decide +kernel

end ObjectSystem
