import Mathlib
import ObjectSystem.Proofs.Countdown

/-!
# Progressions of deadlines

A timeout that is always served at its deadline does not drift: its deadlines are an arithmetic
progression, and `Source.onward` is the timeout after some starts. A list of starts is *on schedule*
if each is that of a source whose callback has always asked to stay so far, at its deadline, and
after all starts before it, in the order of time, priority and attachment (`OnSchedule`). If no
deadline up to some time is left, the progressions alone tell which starts are in such a list
(`OnSchedule.mem_iff`).

A `Lineup` is what an iteration still has to serve.
-/

namespace ObjectSystem

variable {β : Type}

/-- A start of the callback of a source, and what the callback answered. -/
structure Start where
  time : Nat
  id : SourceId
  /-- Whether the callback asked to stay. -/
  stays : Bool
  deriving Repr, DecidableEq

namespace Start

/-- What is known of a start as it happens. -/
def event (a : Start) : Nat × SourceId :=
  (a.time, a.id)

/-- What its callback says in the end. -/
def answer (a : Start) : SourceId × Bool :=
  (a.id, a.stays)

/-- The number of distinct times of some starts. -/
def times (l : List Start) : Nat :=
  (l.map (·.time)).dedup.length

/-- Starts at a time that is later than all before add one to the number of times. -/
theorem times_append {l new : List Start} {now : Nat} (hbefore : ∀ a ∈ l, a.time < now)
    (hnow : ∀ a ∈ new, a.time = now) (hsome : new ≠ []) : times (l ++ new) = times l + 1 := by
  have hfresh : now ∉ (l.map (·.time)).dedup := by
    rw [List.mem_dedup, List.mem_map]
    rintro ⟨a, ha, rfl⟩
    exact Nat.lt_irrefl _ (hbefore a ha)
  have hnew : ∀ time, time ∈ new.map (·.time) ↔ time = now := by
    intro time
    rw [List.mem_map]
    constructor
    · rintro ⟨a, ha, rfl⟩
      exact hnow a ha
    · rintro rfl
      obtain ⟨a, ha⟩ := List.exists_mem_of_ne_nil new hsome
      exact ⟨a, ha, hnow a ha⟩
  have hperm : ((l ++ new).map (·.time)).dedup.Perm (now :: (l.map (·.time)).dedup) := by
    refine (List.perm_ext_iff_of_nodup (List.nodup_dedup _)
      (List.nodup_cons.mpr ⟨hfresh, List.nodup_dedup _⟩)).mpr fun time => ?_
    rw [List.mem_dedup, List.map_append, List.mem_append, hnew, List.mem_cons, List.mem_dedup,
      or_comm]
  exact hperm.length_eq

end Start

/-! ## Sources after some starts -/

namespace Source

variable {l : List Start} {s : Source β} {a : Start}

/-- How often a source has started. -/
def starts (l : List Start) (s : Source β) : Nat :=
  l.countP (·.id = s.id)

/-- Whether the callback of a source has always asked to stay. -/
def stayed (l : List Start) (s : Source β) : Bool :=
  l.all fun a => a.id ≠ s.id || a.stays

/-- A source after its starts, with the next deadline of its progression. -/
def onward (l : List Start) (s : Source β) : Source β :=
  { s with readyAt := s.readyAt + s.starts l * s.kind.delay }

theorem starts_snoc :
    s.starts (l ++ [a]) = s.starts l + if a.id = s.id then 1 else 0 := by
  simp [starts, List.countP_append, List.countP_cons]

theorem stayed_snoc : s.stayed (l ++ [a]) = (s.stayed l && (a.id ≠ s.id || a.stays)) := by
  simp [stayed]

theorem stayed_iff : s.stayed l = true ↔ ∀ a ∈ l, a.id = s.id → a.stays = true := by
  simp only [stayed, List.all_eq_true, Bool.or_eq_true, decide_eq_true_eq]
  exact forall₂_congr fun a _ => ⟨fun h hid => h.resolve_left (· hid), fun h =>
    or_iff_not_imp_left.mpr fun hid => h (not_not.mp hid)⟩

/-- A start of another source changes nothing. -/
theorem onward_snoc_of_ne (h : a.id ≠ s.id) :
    s.onward (l ++ [a]) = s.onward l ∧ s.stayed (l ++ [a]) = s.stayed l := by
  unfold onward
  rw [starts_snoc, if_neg h, stayed_snoc, decide_eq_true h, Bool.true_or, Bool.and_true]
  exact ⟨rfl, rfl⟩

/-- With a start of its own, a source goes on to its next deadline. -/
theorem onward_snoc (h : a.id = s.id) : s.onward (l ++ [a]) =
    { s.onward l with readyAt := (s.onward l).readyAt + s.kind.delay } := by
  unfold onward
  rw [starts_snoc, if_pos h, Nat.succ_mul, Nat.add_assoc]

theorem readyAt_onward_le (l : List Start) (s : Source β) (a : Start) :
    (s.onward l).readyAt ≤ (s.onward (l ++ [a])).readyAt := by
  by_cases h : a.id = s.id
  · rw [onward_snoc h]
    exact Nat.le_add_right _ _
  · rw [(onward_snoc_of_ne h).1]

/-- The sources that are attached after some starts. -/
def remaining (sources : List (Source β)) (l : List Start) : List (Source β) :=
  (sources.filter (·.stayed l)).map (·.onward l)

theorem mem_remaining {sources : List (Source β)} {q : Source β} :
    q ∈ remaining sources l ↔ ∃ s ∈ sources, s.stayed l = true ∧ s.onward l = q := by
  simp [remaining, and_assoc]

theorem remaining_nil (sources : List (Source β)) : remaining sources [] = sources := by
  have hsame (s : Source β) : s.onward [] = s := by simp [onward, starts]
  simp [remaining, stayed, hsame]

/-- The order of starts: by time, then by priority, then by attachment. -/
def Precedes (sources : List (Source β)) (a b : Nat × SourceId) : Prop :=
  a.1 < b.1 ∨ a.1 = b.1 ∧ ∃ s ∈ sources, ∃ t ∈ sources, s.id = a.2 ∧ t.id = b.2 ∧
    (s.priority.rank < t.priority.rank ∨
      s.priority.rank = t.priority.rank ∧ s.id.number < t.id.number)

theorem not_precedes_self {sources : List (Source β)} (hnodup : (sources.map (·.id)).Nodup)
    (a : Nat × SourceId) : ¬ Precedes sources a a := by
  rintro (hlt | ⟨-, s, hs, t, ht, hsid, htid, hlt⟩)
  · exact Nat.lt_irrefl _ hlt
  · obtain rfl := List.inj_on_of_nodup_map hnodup hs ht (hsid.trans htid.symm)
    omega

end Source

open Source (remaining Precedes)

namespace MainContext

variable {x : MainContext β} {s : Source β} {sources : List (Source β)} {l : List Start}

theorem rested_eq (now : Nat) (h : 0 < s.kind.delay) :
    rested now s = { s with running := false, readyAt := now + s.kind.delay } := by
  unfold rested rearm
  cases hkind : s.kind with
  | idle =>
      rw [hkind] at h
      cases h
  | timeout interval => rfl

/-- What a timeout that is served at its deadline leaves attached. -/
theorem sources_serve (hnodup : (sources.map (·.id)).Nodup)
    (hstill : ∀ s ∈ sources, s.running = false) (hx : x.sources = remaining sources l)
    (hs : s ∈ sources) (hpos : 0 < s.kind.delay) (hnow : (s.onward l).readyAt = x.now)
    (stays : Bool) :
    (x.serve s.id stays).sources = remaining sources (l ++ [⟨x.now, s.id, stays⟩]) := by
  cases stays with
  | true =>
      have hkept : sources.filter (·.stayed (l ++ [⟨x.now, s.id, true⟩])) =
          sources.filter (·.stayed l) := by
        refine List.filter_congr fun q _ => ?_
        rw [Source.stayed_snoc, Bool.or_true, Bool.and_true]
      rw [sources_serve_true, hx]
      unfold remaining
      rw [hkept, List.map_map]
      refine List.map_congr_left fun q hq => ?_
      by_cases hid : q.id = s.id
      · obtain rfl := List.inj_on_of_nodup_map hnodup (List.mem_of_mem_filter hq) hs hid
        rw [Function.comp_apply, if_pos (show (q.onward l).id = q.id from rfl),
          rested_eq x.now (s := q.onward l) hpos, Source.onward_snoc rfl, hnow]
        unfold Source.onward
        rw [hstill q hs]
      · rw [Function.comp_apply, if_neg (show (q.onward l).id ≠ s.id from hid),
          (Source.onward_snoc_of_ne (Ne.symm hid)).1]
  | false =>
      rw [sources_serve_false, hx]
      unfold remaining
      rw [List.filter_map, List.filter_filter]
      have hkept : sources.filter (·.stayed (l ++ [⟨x.now, s.id, false⟩])) =
          sources.filter fun q => decide ((q.onward l).id ≠ s.id) && q.stayed l := by
        refine List.filter_congr fun q _ => ?_
        rw [Source.stayed_snoc, Bool.or_false, Bool.and_comm]
        exact congrArg (· && q.stayed l) (decide_eq_decide.mpr ne_comm)
      rw [hkept]
      refine List.map_congr_left fun q hq => ?_
      have hid : q.id ≠ s.id := by
        simpa [Source.onward] using (Bool.and_eq_true_iff.mp (List.mem_filter.mp hq).2).1
      rw [(Source.onward_snoc_of_ne (Ne.symm hid)).1]

end MainContext

/-! ## Starts on schedule -/

/-- Each start is that of a source that is still attached, at its deadline, and after all starts
before it. -/
inductive OnSchedule (sources : List (Source β)) : List Start → Prop
  | nil : OnSchedule sources []
  | start {l : List Start} {s : Source β} (h : OnSchedule sources l) (hs : s ∈ sources)
      (hstayed : s.stayed l = true) (stays : Bool)
      (hlast : ∀ a ∈ l, Precedes sources a.event ((s.onward l).readyAt, s.id)) :
      OnSchedule sources (l ++ [⟨(s.onward l).readyAt, s.id, stays⟩])

namespace OnSchedule

variable {sources : List (Source β)} {l : List Start} {s : Source β}

theorem ordered (h : OnSchedule sources l) : (l.map (·.event)).Pairwise (Precedes sources) := by
  induction h with
  | nil => exact .nil
  | start h hs hstayed stays hlast ih =>
      rw [List.map_append, List.pairwise_append]
      refine ⟨ih, List.pairwise_singleton _ _, fun _ hevent _ hnew => ?_⟩
      obtain ⟨a, ha, rfl⟩ := List.mem_map.mp hevent
      obtain rfl := List.mem_singleton.mp hnew
      exact hlast a ha

/-- Each start is in the progression of its source. -/
theorem exists_index (h : OnSchedule sources l) {a : Start} (ha : a ∈ l) :
    ∃ s ∈ sources, s.id = a.id ∧ ∃ j < s.starts l, a.time = s.readyAt + j * s.kind.delay := by
  induction h with
  | nil => cases ha
  | @start l q h hq hstayed stays hlast ih =>
      rcases List.mem_append.mp ha with ha | ha
      · obtain ⟨s, hs, hid, j, hj, htime⟩ := ih ha
        refine ⟨s, hs, hid, j, ?_, htime⟩
        rw [Source.starts_snoc]
        exact Nat.lt_add_right _ hj
      · obtain rfl := List.mem_singleton.mp ha
        refine ⟨q, hq, rfl, q.starts l, ?_, rfl⟩
        rw [Source.starts_snoc, if_pos rfl]
        exact Nat.lt_succ_self _

/-- A source has started at all deadlines before its next one. -/
theorem exists_start (h : OnSchedule sources l) (hnodup : (sources.map (·.id)).Nodup)
    (hs : s ∈ sources) {j : Nat} (hj : j < s.starts l) :
    ∃ a ∈ l, a.id = s.id ∧ a.time = s.readyAt + j * s.kind.delay := by
  induction h with
  | nil => cases hj
  | @start l q h hq hstayed stays hlast ih =>
      rcases Nat.lt_or_ge j (s.starts l) with hlt | hge
      · obtain ⟨a, ha, hid, htime⟩ := ih hlt
        exact ⟨a, List.mem_append_left _ ha, hid, htime⟩
      · refine ⟨_, List.mem_append_right _ (List.mem_singleton_self _), ?_⟩
        rw [Source.starts_snoc] at hj
        by_cases hid : q.id = s.id
        · obtain rfl := List.inj_on_of_nodup_map hnodup hq hs hid
          rw [if_pos rfl] at hj
          obtain rfl : j = q.starts l := by omega
          exact ⟨rfl, rfl⟩
        · rw [if_neg hid] at hj
          omega

/-- A callback that starts once more has asked to stay. -/
theorem stays_of_lt (h : OnSchedule sources l) (hnodup : (sources.map (·.id)).Nodup)
    {a b : Start} (ha : a ∈ l) (hb : b ∈ l) (hid : a.id = b.id) (hlt : a.time < b.time) :
    a.stays = true := by
  induction h with
  | nil => cases ha
  | @start l q h hq hstayed stays hlast ih =>
      rcases List.mem_append.mp ha with ha | ha
      · rcases List.mem_append.mp hb with hb | hb
        · exact ih ha hb
        · obtain rfl := List.mem_singleton.mp hb
          exact Source.stayed_iff.mp hstayed a ha hid
      · obtain rfl := List.mem_singleton.mp ha
        rcases List.mem_append.mp hb with hb | hb
        · -- nothing has started after the last start
          obtain ⟨s, hs, hsid, j, hj, htime⟩ := h.exists_index hb
          obtain rfl := List.inj_on_of_nodup_map hnodup hs hq (hsid.trans hid.symm)
          have hle := Nat.mul_le_mul_right s.kind.delay (Nat.le_of_lt hj)
          have hnext : (s.onward l).readyAt = s.readyAt + s.starts l * s.kind.delay := rfl
          dsimp only at hlt
          omega
        · obtain rfl := List.mem_singleton.mp hb
          exact absurd hlt (Nat.lt_irrefl _)

/-- **What has started up to some time**, if no deadline up to it is left: each source at the times
of its progression, unless its callback has asked not to stay before. -/
theorem mem_iff (h : OnSchedule sources l) (hnodup : (sources.map (·.id)).Nodup)
    (hpos : ∀ s ∈ sources, 0 < s.kind.delay) {target : Nat} (hupto : ∀ a ∈ l, a.time ≤ target)
    (hahead : ∀ q ∈ remaining sources l, target < q.readyAt) (time : Nat) (id : SourceId) :
    (time, id) ∈ l.map (·.event) ↔ ∃ s ∈ sources, s.id = id ∧
      (∃ j, time = s.readyAt + j * s.kind.delay) ∧ time ≤ target ∧
      ∀ a ∈ l, a.id = id → a.time < time → a.stays = true := by
  constructor
  · intro hmem
    obtain ⟨a, ha, hevent⟩ := List.mem_map.mp hmem
    obtain ⟨rfl, rfl⟩ := Prod.mk.inj hevent
    obtain ⟨s, hs, hid, j, -, htime⟩ := h.exists_index ha
    refine ⟨s, hs, hid, ⟨j, htime⟩, hupto a ha, fun b hb hid hlt => ?_⟩
    exact h.stays_of_lt hnodup hb ha hid hlt
  · rintro ⟨s, hs, rfl, ⟨j, rfl⟩, hle, hstays⟩
    rcases Nat.lt_or_ge j (s.starts l) with hlt | hge
    · obtain ⟨a, ha, hid, htime⟩ := h.exists_start hnodup hs hlt
      exact List.mem_map.mpr ⟨a, ha, Prod.ext htime hid⟩
    · -- all its starts were before, so it is attached with a deadline that is not ahead
      have hstayed : s.stayed l = true := Source.stayed_iff.mpr fun a ha hid => by
        obtain ⟨q, hq, hqid, k, hk, htime⟩ := h.exists_index ha
        obtain rfl := List.inj_on_of_nodup_map hnodup hq hs (hqid.trans hid)
        have hless := Nat.mul_lt_mul_of_pos_right (Nat.lt_of_lt_of_le hk hge) (hpos q hs)
        exact hstays a ha hid (by omega)
      have hnext := hahead _ (Source.mem_remaining.mpr ⟨s, hs, hstayed, rfl⟩)
      have hmul := Nat.mul_le_mul_right s.kind.delay hge
      have honward : (s.onward l).readyAt = s.readyAt + s.starts l * s.kind.delay := rfl
      omega

end OnSchedule

/-! ## Lineups -/

/-- What an iteration still has to serve at some time, after some starts: these sources in this
order, and no other deadline has passed. -/
structure Lineup (sources : List (Source β)) (now : Nat) (l : List Start)
    (ready : List SourceId) : Prop where
  attached : ∀ id ∈ ready, ∃ s ∈ sources, s.id = id ∧ s.stayed l = true ∧
    (s.onward l).readyAt = now
  ordered : ready.Pairwise fun id id' => Precedes sources (now, id) (now, id')
  later : ∀ a ∈ l, ∀ id ∈ ready, Precedes sources a.event (now, id)
  ahead : ∀ s ∈ sources, s.stayed l = true → s.id ∈ ready ∨ now < (s.onward l).readyAt

/-- The first of a lineup starts. -/
theorem Lineup.start {sources : List (Source β)} {now : Nat} {l : List Start} {id : SourceId}
    {ready : List SourceId} (h : Lineup sources now l (id :: ready))
    (hnodup : (sources.map (·.id)).Nodup) (hpos : ∀ s ∈ sources, 0 < s.kind.delay)
    (stays : Bool) : Lineup sources now (l ++ [⟨now, id, stays⟩]) ready := by
  obtain ⟨hfirst, hordered⟩ := List.pairwise_cons.mp h.ordered
  refine ⟨fun other hother => ?_, hordered, fun a ha other hother => ?_, fun s hs hstayed => ?_⟩
  · obtain ⟨s, hs, hsid, hstayed, hready⟩ := h.attached other (List.mem_cons_of_mem _ hother)
    have hne : id ≠ s.id := by
      rintro rfl
      exact Source.not_precedes_self hnodup _ (hfirst s.id (hsid ▸ hother))
    obtain ⟨hsame, hsame'⟩ := Source.onward_snoc_of_ne (l := l) (a := ⟨now, id, stays⟩) hne
    exact ⟨s, hs, hsid, hsame'.trans hstayed, hsame ▸ hready⟩
  · rcases List.mem_append.mp ha with ha | ha
    · exact h.later a ha other (List.mem_cons_of_mem _ hother)
    · obtain rfl := List.mem_singleton.mp ha
      exact hfirst other hother
  · rw [Source.stayed_snoc, Bool.and_eq_true] at hstayed
    rcases h.ahead s hs hstayed.1 with hmem | hlt
    · rcases List.mem_cons.mp hmem with hid | hmem
      · -- its next deadline is an interval later
        obtain ⟨q, hq, hqid, -, hready⟩ := h.attached id List.mem_cons_self
        obtain rfl := List.inj_on_of_nodup_map hnodup hq hs (hqid.trans hid.symm)
        rw [Source.onward_snoc hid.symm, hready]
        exact .inr (Nat.lt_add_of_pos_right (hpos q hs))
      · exact .inl hmem
    · exact .inr (Nat.lt_of_lt_of_le hlt (Source.readyAt_onward_le l s _))

end ObjectSystem
