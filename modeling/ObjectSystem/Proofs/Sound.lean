import ObjectSystem.Proofs.Queue

/-!
# Sound desks

`Desk.Sound` is what holds of the desks of all reachable states (`Machine.Reachable.desk`):
identities are never used twice, no entry of an attached source in the timeout queue is stale, and a
timeout has one entry there, or waits for its turn in one iteration, or runs. Each change of a
timetable keeps this, so each move on a desk does.
-/

namespace ObjectSystem

variable {σ β κ : Type}

/-- What holds of a timetable and of the sources that wait and run. -/
structure Timetable.Sound (t : Timetable β) (waiting : List SourceId)
    (running : List (SourceId × Bool)) : Prop where
  nodup : (t.sources.map (·.id)).Nodup
  fresh : ∀ s ∈ t.sources, s.id.number < t.nextSource
  /-- An entry in the queue is stale only if its source is gone. -/
  current : ∀ s ∈ t.sources, ∀ e ∈ t.queue.entries, e.id = s.id →
    s.kind.isIdle = false ∧ e = s.entry
  entered_lt : ∀ e ∈ t.queue.entries, e.id.number < t.nextSource
  /-- A timeout has one entry in the queue, waits in one iteration, or runs. -/
  phase : ∀ s ∈ t.sources, s.kind.isIdle = false →
    waiting.count s.id + t.queue.entries.count s.entry + s.running.toNat = 1
  waits_lt : ∀ id ∈ waiting, id.number < t.nextSource
  running_lt : ∀ r ∈ running, r.1.number < t.nextSource
  runs : ∀ s ∈ t.sources, s.running = true ↔ s.id ∈ running.map (·.1)
  once : (running.map (·.1)).Nodup
  /-- A source that may stay says so by its work. -/
  stays : ∀ s ∈ t.sources, (s.id, true) ∈ running → s.work.mayStay = true

/-- What holds of a desk. -/
structure Desk.Sound (d : Desk β) : Prop where
  absent : d.timetable = none → d.waiting = [] ∧ d.running = []
  present : ∀ t, d.timetable = some t → t.Sound d.waiting d.running

namespace Timetable

variable {t : Timetable β} {id : SourceId}

theorem mem_modify {f : Source β → Source β} {s : Source β} :
    s ∈ (t.modify id f).sources ↔ ∃ r ∈ t.sources, (if r.id = id then f r else r) = s :=
  List.mem_map

theorem ids_modify {f : Source β → Source β} (hf : ∀ s, (f s).id = s.id) :
    (t.modify id f).sources.map (·.id) = t.sources.map (·.id) := by
  unfold modify
  rw [List.map_map]
  apply List.map_congr_left
  intro s _
  dsimp only [Function.comp]
  split
  · exact hf s
  · rfl

/-- A source that has gone in the meantime does not come back. -/
theorem settle_of_absent (h : t.source? id = none) (stays : Bool) :
    t.settle id stays = t.detach id := by
  have habsent : ∀ s ∈ t.sources, s.id ≠ id := fun s hs => by
    simpa using List.find?_eq_none.mp h s hs
  cases stays with
  | false => rfl
  | true =>
      unfold settle
      rw [if_pos rfl, h]
      unfold modify detach
      rw [List.filter_eq_self.mpr fun s hs => by simpa using habsent s hs]
      rw [List.map_congr_left fun s hs => if_neg (habsent s hs), List.map_id']

namespace Sound

variable {waiting : List SourceId} {running : List (SourceId × Bool)}

/-- Two sources of one identity are the same. -/
theorem eq_of_id (h : t.Sound waiting running) {r s : Source β} (hr : r ∈ t.sources)
    (hs : s ∈ t.sources) (hid : r.id = s.id) : r = s :=
  List.inj_on_of_nodup_map h.nodup hr hs hid

theorem source?_of_mem (h : t.Sound waiting running) {s : Source β} (hs : s ∈ t.sources) :
    t.source? s.id = some s :=
  Timetable.source?_of_mem h.nodup hs

/-- What is in the queue is a timeout that neither waits nor runs. -/
theorem of_armed (h : t.Sound waiting running) {s : Source β} (hs : s ∈ t.sources)
    (harmed : t.Armed s) : s.kind.isIdle = false ∧ s.running = false := by
  have hkind := (h.current s hs s.entry harmed rfl).1
  have hphase := h.phase s hs hkind
  have hpos := List.count_pos_iff.mpr harmed
  cases hrun : s.running with
  | false => exact ⟨hkind, rfl⟩
  | true =>
      rw [hrun, Bool.toNat_true] at hphase
      omega

/-- A timeout that neither waits nor runs is in the queue. -/
theorem armed_of_at_rest (h : t.Sound waiting running) {s : Source β} (hs : s ∈ t.sources)
    (htimeout : s.kind.isIdle = false) (hwaiting : s.id ∉ waiting) (hrun : s.running = false) :
    t.Armed s := by
  have hphase := h.phase s hs htimeout
  rw [List.count_eq_zero_of_not_mem hwaiting, hrun, Bool.toNat_false] at hphase
  exact List.count_pos_iff.mp (by omega)

theorem detach (h : t.Sound waiting running) (id : SourceId) :
    (t.detach id).Sound waiting running where
  nodup := h.nodup.sublist (List.filter_sublist.map _)
  fresh s hs := h.fresh s (List.mem_of_mem_filter hs)
  current s hs := h.current s (List.mem_of_mem_filter hs)
  entered_lt := h.entered_lt
  phase s hs := h.phase s (List.mem_of_mem_filter hs)
  waits_lt := h.waits_lt
  running_lt := h.running_lt
  runs s hs := h.runs s (List.mem_of_mem_filter hs)
  once := h.once
  stays s hs := h.stays s (List.mem_of_mem_filter hs)

theorem attach (h : t.Sound waiting running) (kind : SourceKind) (priority : Priority)
    (work : SourceWork β) : (t.attach kind priority work).Sound waiting running := by
  have hnew : (⟨t.nextSource⟩ : SourceId) ∉ waiting := fun hmem =>
    absurd (h.waits_lt _ hmem) (Nat.lt_irrefl _)
  have hnotrun : (⟨t.nextSource⟩ : SourceId) ∉ running.map (·.1) := by
    intro hmem
    obtain ⟨r, hr, hid⟩ := List.mem_map.mp hmem
    have := h.running_lt r hr
    rw [hid] at this
    exact absurd this (Nat.lt_irrefl _)
  have hnotentered {e : TimeoutEntry} (he : e ∈ t.queue.entries) : e.id ≠ ⟨t.nextSource⟩ := by
    intro hid
    have := h.entered_lt e he
    rw [hid] at this
    exact absurd this (Nat.lt_irrefl _)
  have hold {s : Source β} (hs : s ∈ t.sources) : s.id ≠ ⟨t.nextSource⟩ := by
    intro hid
    have := h.fresh s hs
    rw [hid] at this
    exact absurd this (Nat.lt_irrefl _)
  have hcases {s : Source β} (hs : s ∈ (t.attach kind priority work).sources) :
      s ∈ t.sources ∨ s = t.fresh kind priority work := by
    simpa [Timetable.attach] using hs
  refine ⟨?_, ?_, ?_, ?_, ?_, ?_, ?_, ?_, h.once, ?_⟩
  · unfold Timetable.attach
    rw [List.map_append, List.nodup_append]
    refine ⟨h.nodup, by simp, ?_⟩
    intro a ha b hb
    obtain ⟨s, hs, rfl⟩ := List.mem_map.mp ha
    rw [List.map_singleton, List.mem_singleton] at hb
    subst hb
    exact hold hs
  · intro s hs
    rcases hcases hs with hs | rfl
    · exact Nat.lt_succ_of_lt (h.fresh s hs)
    · exact Nat.lt_succ_self _
  · intro s hs e he hid
    rcases hcases hs with hs | rfl <;> rcases TimeoutQueue.mem_enter.mp he with ⟨hkind, rfl⟩ | he
    · exact absurd hid.symm (hold hs)
    · exact h.current s hs e he hid
    · exact ⟨hkind, rfl⟩
    · exact absurd hid (hnotentered he)
  · intro e he
    rcases TimeoutQueue.mem_enter.mp he with ⟨-, rfl⟩ | he
    · exact Nat.lt_succ_self _
    · exact Nat.lt_succ_of_lt (h.entered_lt e he)
  · intro s hs htimeout
    rcases hcases hs with hs | rfl
    · have hphase := h.phase s hs htimeout
      have hne : (t.fresh kind priority work).entry ≠ s.entry := fun heq =>
        hold hs (congrArg TimeoutEntry.id heq).symm
      show _ + (t.queue.enter (t.fresh kind priority work)).entries.count s.entry + _ = 1
      rwa [TimeoutQueue.count_enter_of_ne hne]
    · have hcount : (t.attach kind priority work).queue.entries.count
          (t.fresh kind priority work).entry = 1 := by
        refine (TimeoutQueue.count_enter htimeout).trans ?_
        rw [if_pos rfl, List.count_eq_zero_of_not_mem fun hmem => hnotentered hmem rfl]
      rw [hcount]
      show waiting.count ⟨t.nextSource⟩ + 1 + 0 = 1
      rw [List.count_eq_zero_of_not_mem hnew]
  · exact fun id hid => Nat.lt_succ_of_lt (h.waits_lt id hid)
  · exact fun r hr => Nat.lt_succ_of_lt (h.running_lt r hr)
  · intro s hs
    rcases hcases hs with hs | rfl
    · exact h.runs s hs
    · exact ⟨fun hrun => (by cases hrun), fun hmem => absurd hmem hnotrun⟩
  · intro s hs hmem
    rcases hcases hs with hs | rfl
    · exact h.stays s hs hmem
    · exact absurd (List.mem_map_of_mem hmem) hnotrun

theorem edited (h : t.Sound waiting running) {u : Timetable β} (he : t.Edited u) :
    u.Sound waiting running := by
  induction he with
  | refl => exact h
  | attach _ kind priority work ih => exact ih.attach kind priority work
  | detach _ id ih => exact ih.detach id

theorem collect (h : t.Sound waiting running) :
    t.collect.Sound (t.ready ++ waiting) running where
  nodup := h.nodup
  fresh := h.fresh
  current s hs e he := h.current s hs e (TimeoutQueue.mem_afterDue.mp he).1
  entered_lt e he := h.entered_lt e (TimeoutQueue.mem_afterDue.mp he).1
  phase s hs htimeout := by
    -- what leaves the queue is collected, for a timeout in the queue does not run
    have hphase := h.phase s hs htimeout
    have hparts := t.queue.count_due_add t.now s.entry
    have hcount := count_ready h.nodup hs htimeout
    rw [List.count_append, hcount]
    show _ + (t.queue.afterDue t.now).entries.count s.entry + _ = 1
    cases hrun : s.running with
    | true =>
        rw [hrun, Bool.toNat_true] at hphase
        rw [if_pos rfl, Bool.toNat_true]
        omega
    | false =>
        rw [hrun, Bool.toNat_false] at hphase
        rw [if_neg Bool.false_ne_true, Bool.toNat_false]
        omega
  waits_lt id hid := by
    rcases List.mem_append.mp hid with hid | hid
    · obtain ⟨s, hs, -, rfl⟩ := collects_of_mem_ready hid
      exact h.fresh s hs
    · exact h.waits_lt id hid
  running_lt := h.running_lt
  runs := h.runs
  once := h.once
  stays := h.stays

/-- Passing over a source that is gone or runs. -/
theorem skip (h : t.Sound (id :: waiting) running)
    (hid : ∀ s, t.source? id = some s → s.running = true) : t.Sound waiting running where
  nodup := h.nodup
  fresh := h.fresh
  current := h.current
  entered_lt := h.entered_lt
  phase s hs htimeout := by
    have hphase := h.phase s hs htimeout
    by_cases hsid : s.id = id
    · -- a timeout that waits does not run
      exfalso
      subst hsid
      have hrun := hid s (h.source?_of_mem hs)
      rw [hrun, Bool.toNat_true, List.count_cons_self] at hphase
      omega
    · rwa [List.count_cons_of_ne (Ne.symm hsid)] at hphase
  waits_lt r hr := h.waits_lt r (List.mem_cons_of_mem _ hr)
  running_lt := h.running_lt
  runs := h.runs
  once := h.once
  stays := h.stays

theorem start (h : t.Sound (id :: waiting) running) {s : Source β} (hs : t.source? id = some s)
    (hrun : s.running = false) :
    (t.start id).Sound waiting ((id, s.work.mayStay) :: running) := by
  obtain ⟨hmem, hsid⟩ := mem_of_source? hs
  have hnotin : id ∉ running.map (·.1) := by
    intro hin
    have := (h.runs s hmem).mpr (hsid ▸ hin)
    rw [hrun] at this
    cases this
  have hentry (r : Source β) :
      (if r.id = id then { r with running := true } else r : Source β).entry = r.entry := by
    split <;> rfl
  refine ⟨?_, ?_, ?_, h.entered_lt, ?_, ?_, ?_, ?_, ?_, ?_⟩
  · have hids : (t.start id).sources.map (·.id) = t.sources.map (·.id) := by
      apply ids_modify
      exact fun _ => rfl
    rw [hids]
    exact h.nodup
  · intro q hq
    obtain ⟨r, hr, rfl⟩ := mem_modify.mp hq
    have := h.fresh r hr
    split <;> exact this
  · intro q hq e he hid
    obtain ⟨r, hr, rfl⟩ := mem_modify.mp hq
    rw [hentry]
    have hrid : e.id = r.id := by
      split at hid <;> exact hid
    obtain ⟨hkind, he⟩ := h.current r hr e he hrid
    exact ⟨by split <;> exact hkind, he⟩
  · intro q hq htimeout
    obtain ⟨r, hr, rfl⟩ := mem_modify.mp hq
    rw [hentry]
    show _ + t.queue.entries.count r.entry + _ = 1
    by_cases hrid : r.id = id
    · have hrs : r = s := h.eq_of_id hr hmem (hrid.trans hsid.symm)
      subst hrs
      simp only [hrid, ↓reduceIte] at htimeout ⊢
      have hphase := h.phase r hr htimeout
      rw [hrid, List.count_cons_self, hrun, Bool.toNat_false] at hphase
      rw [Bool.toNat_true]
      omega
    · simp only [if_neg hrid] at htimeout ⊢
      have hphase := h.phase r hr htimeout
      rwa [List.count_cons_of_ne (Ne.symm hrid)] at hphase
  · exact fun r hr => h.waits_lt r (List.mem_cons_of_mem _ hr)
  · intro r hr
    rcases List.mem_cons.mp hr with rfl | hr
    · exact hsid ▸ h.fresh s hmem
    · exact h.running_lt r hr
  · intro q hq
    obtain ⟨r, hr, rfl⟩ := mem_modify.mp hq
    rw [List.map_cons, List.mem_cons]
    by_cases hrid : r.id = id
    · rw [if_pos hrid]
      exact ⟨fun _ => .inl hrid, fun _ => rfl⟩
    · rw [if_neg hrid, h.runs r hr]
      exact ⟨.inr, fun hor => hor.resolve_left hrid⟩
  · rw [List.map_cons, List.nodup_cons]
    exact ⟨hnotin, h.once⟩
  · intro q hq hin
    obtain ⟨r, hr, rfl⟩ := mem_modify.mp hq
    have hwork : (if r.id = id then { r with running := true } else r : Source β).work = r.work := by
      split <;> rfl
    have hid : (if r.id = id then { r with running := true } else r : Source β).id = r.id := by
      split <;> rfl
    rw [hid] at hin
    rw [hwork]
    rcases List.mem_cons.mp hin with heq | hin
    · obtain ⟨hrid, hstay⟩ := Prod.mk.inj heq
      rw [h.eq_of_id hr hmem (hrid.trans hsid.symm)]
      exact hstay.symm
    · exact h.stays r hr hin

/-- A source that has run does not stay. -/
theorem drop {mayStay : Bool} (h : t.Sound waiting ((id, mayStay) :: running)) :
    (t.detach id).Sound waiting running := by
  have hd := h.detach id
  refine ⟨hd.nodup, hd.fresh, hd.current, hd.entered_lt, hd.phase, hd.waits_lt,
    fun r hr => h.running_lt r (List.mem_cons_of_mem _ hr), fun s hs => ?_,
    (List.nodup_cons.mp h.once).2, fun s hs hin => hd.stays s hs (List.mem_cons_of_mem _ hin)⟩
  obtain ⟨hs, hsid⟩ := List.mem_filter.mp hs
  rw [h.runs s hs, List.map_cons, List.mem_cons]
  exact ⟨fun hor => hor.resolve_left (by simpa using hsid), .inr⟩

/-- A source that has run stays. -/
theorem stay {mayStay : Bool} (h : t.Sound waiting ((id, mayStay) :: running)) {s : Source β}
    (hs : t.source? id = some s) : (t.settle id true).Sound waiting running := by
  obtain ⟨hmem, hsid⟩ := mem_of_source? hs
  have honce : id ∉ running.map (·.1) ∧ (running.map (·.1)).Nodup := List.nodup_cons.mp h.once
  have hrun : s.running = true := (h.runs s hmem).mpr (by simp [hsid])
  let s' := MainContext.rearm t.now s
  have hs' : s'.id = id ∧ s'.kind = s.kind ∧ s'.work = s.work ∧ s'.running = false := by
    refine ⟨Eq.trans ?_ hsid, ?_⟩ <;> (unfold s' MainContext.rearm; split <;> simp_all)
  -- it ran, so it neither waited nor was in the queue; now it enters
  have hnotentered {e : TimeoutEntry} (he : e ∈ t.queue.entries) : e.id ≠ id := by
    intro hid
    obtain ⟨hkind, rfl⟩ := h.current s hmem e he (hid.trans hsid.symm)
    exact absurd (h.of_armed hmem he).2 (by simp [hrun])
  have hqueue : (t.settle id true).queue = t.queue.enter s' := by
    unfold settle
    rw [if_pos rfl, hs]
  have hcases {q : Source β} (hq : q ∈ (t.settle id true).sources) :
      q = s' ∨ q ∈ t.sources ∧ q.id ≠ id := by
    obtain ⟨r, hr, rfl⟩ := mem_modify.mp (show q ∈ (t.modify id _).sources from hq)
    by_cases hrid : r.id = id
    · rw [if_pos hrid, h.eq_of_id hr hmem (hrid.trans hsid.symm)]
      exact .inl rfl
    · rw [if_neg hrid]
      exact .inr ⟨hr, hrid⟩
  refine ⟨?_, ?_, ?_, ?_, ?_, h.waits_lt, fun r hr => h.running_lt r (List.mem_cons_of_mem _ hr), ?_,
    honce.2, ?_⟩
  · have hids : (t.settle id true).sources.map (·.id) = t.sources.map (·.id) := by
      apply ids_modify
      intro r
      unfold MainContext.rearm
      split <;> rfl
    rw [hids]
    exact h.nodup
  · intro q hq
    rcases hcases hq with rfl | ⟨hq, -⟩
    · rw [hs'.1, ← hsid]
      exact h.fresh s hmem
    · exact h.fresh q hq
  · intro q hq e he hid
    rw [hqueue] at he
    rcases hcases hq with rfl | ⟨hq, hqid⟩ <;>
      rcases TimeoutQueue.mem_enter.mp he with ⟨hkind, rfl⟩ | he
    · exact ⟨hkind, rfl⟩
    · exact absurd (hid.trans hs'.1) (hnotentered he)
    · exact absurd (hid.symm.trans hs'.1) hqid
    · exact h.current q hq e he hid
  · intro e he
    rw [hqueue] at he
    rcases TimeoutQueue.mem_enter.mp he with ⟨-, rfl⟩ | he
    · show s'.id.number < t.nextSource
      rw [hs'.1, ← hsid]
      exact h.fresh s hmem
    · exact h.entered_lt e he
  · intro q hq htimeout
    rw [hqueue]
    rcases hcases hq with rfl | ⟨hq, hqid⟩
    · have hphase := h.phase s hmem (hs'.2.1 ▸ htimeout)
      rw [hrun, Bool.toNat_true, hsid] at hphase
      rw [TimeoutQueue.count_enter htimeout, if_pos rfl,
        List.count_eq_zero_of_not_mem fun he => hnotentered he hs'.1, hs'.1, hs'.2.2.2,
        Bool.toNat_false]
      omega
    · rw [TimeoutQueue.count_enter_of_ne]
      · exact h.phase q hq htimeout
      · exact fun heq => hqid ((congrArg TimeoutEntry.id heq).symm.trans hs'.1)
  · intro q hq
    rcases hcases hq with rfl | ⟨hq, hqid⟩
    · rw [hs'.1, hs'.2.2.2]
      exact ⟨fun hf => (by cases hf), fun hin => absurd hin honce.1⟩
    · rw [h.runs q hq, List.map_cons, List.mem_cons]
      exact ⟨fun hor => hor.resolve_left hqid, .inr⟩
  · intro q hq hin
    rcases hcases hq with rfl | ⟨hq, -⟩
    · rw [hs'.1] at hin
      exact absurd (List.mem_map_of_mem hin) honce.1
    · exact h.stays q hq (List.mem_cons_of_mem _ hin)

theorem settle {mayStay : Bool} (h : t.Sound waiting ((id, mayStay) :: running)) (stays : Bool) :
    (t.settle id stays).Sound waiting running := by
  cases stays with
  | false => exact h.drop
  | true =>
      cases hs : t.source? id with
      | none =>
          rw [settle_of_absent hs]
          exact h.drop
      | some s => exact h.stay hs

end Sound

end Timetable

namespace Desk

/-- A move keeps a desk sound. -/
theorem Sound.move {ticking : Prop} {d d' : Desk β} (h : d.Sound) (hm : Move ticking d d') :
    d'.Sound := by
  have present {t u : Timetable β} (ht' : d'.timetable = some t) (hu : d'.timetable = some u) :
      u = t := by
    rw [ht'] at hu
    exact (Option.some.inj hu).symm
  cases hm with
  | edits ht hw hr =>
      refine ⟨?_, ?_⟩
      · intro hnone
        rw [hnone] at ht
        rw [hw, hr]
        cases hd : d.timetable with
        | none => exact h.absent hd
        | some t =>
            rw [hd] at ht
            cases ht
      · intro u hu
        rw [hu] at ht
        rw [hw, hr]
        cases hd : d.timetable with
        | none =>
            rw [hd] at ht
            cases ht
        | some t =>
            rw [hd] at ht
            cases ht with
            | some he => exact (h.present t hd).edited he
  | opens config ht ht' hw hr =>
      obtain ⟨hwait, hrun⟩ := h.absent ht
      refine ⟨fun hnone => (by rw [ht'] at hnone; cases hnone), ?_⟩
      intro u hu
      rw [present ht' hu, hw, hr, hwait, hrun]
      constructor <;> simp
  | drops ht ht' hw hr =>
      obtain ⟨hwait, hrun⟩ := h.absent ht
      refine ⟨fun _ => ⟨?_, ?_⟩, fun u hu => (by rw [ht'] at hu; cases hu)⟩
      · rw [hwait] at hw
        exact List.suffix_nil.mp hw
      · rw [hrun] at hr
        exact List.suffix_nil.mp hr
  | ticks t now htick ht ht' hw hr =>
      refine ⟨fun hnone => (by rw [ht'] at hnone; cases hnone), ?_⟩
      intro u hu
      rw [present ht' hu, hw, hr]
      have hs := h.present t ht
      exact ⟨hs.nodup, hs.fresh, hs.current, hs.entered_lt, hs.phase, hs.waits_lt, hs.running_lt,
        hs.runs, hs.once, hs.stays⟩
  | collects t ht ht' hw hr =>
      refine ⟨fun hnone => (by rw [ht'] at hnone; cases hnone), ?_⟩
      intro u hu
      rw [present ht' hu, hw, hr]
      exact (h.present t ht).collect
  | skips t id ht ht' hid hw hr =>
      refine ⟨fun hnone => (by rw [ht'] at hnone; cases hnone), ?_⟩
      intro u hu
      have hs := h.present t ht
      rw [hw] at hs
      rw [present ht' hu, hr]
      exact hs.skip hid
  | begins t id s ht ht' hs hrun hw hr =>
      refine ⟨fun hnone => (by rw [ht'] at hnone; cases hnone), ?_⟩
      intro u hu
      have hsound := h.present t ht
      rw [hw] at hsound
      rw [present ht' hu, hr]
      exact hsound.start hs hrun
  | ends t id mayStay stays hstay ht ht' hw hr =>
      refine ⟨fun hnone => (by rw [ht'] at hnone; cases hnone), ?_⟩
      intro u hu
      have hsound := h.present t ht
      rw [hr] at hsound
      rw [present ht' hu, hw]
      exact hsound.settle stays

end Desk

/-- **Every desk of every reachable state is sound.** -/
theorem Machine.Reachable.desk {client : Client σ β κ} {m : Machine σ β κ}
    (h : Reachable client m) (c : ContextId) : (m.desk c).Sound := by
  induction h with
  | initial state callback => exact ⟨fun _ => ⟨rfl, rfl⟩, fun t ht => (by cases ht)⟩
  | step _ ih => exact ih.move ((turn_step client _).desk c)

end ObjectSystem
