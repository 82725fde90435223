import ObjectSystem.Proofs.Run
import ObjectSystem.Proofs.Sound

/-!
# Instances know their sources

An instance keeps a record of the sources that do deferred work for it: those of its ready hooks,
and for each method the one that ends the burst. In every reachable state the record is complete
(`Machine.Reachable.tracked`): a source that does work for an instance and does not run is on the
record of that instance, in the context of that instance. This is what makes disposal thorough
(`World.Tracked.retired_dispose`).
-/

namespace ObjectSystem

variable {σ β κ : Type}

open Machine (marks Reachable)

/-! ## Records -/

/-- The instance for which a source does deferred work. -/
def SourceWork.owner? : SourceWork β → Option InstanceId
  | .ready i _ _ | .endOfBurst i _ _ _ => some i
  | _ => none

theorem SourceWork.owner?_of_isPlain {work : SourceWork β} (h : work.isPlain = true) :
    work.owner? = none := by
  cases work <;> first | rfl | cases h

theorem SourceWork.owner?_of_mayStay {work : SourceWork β} (h : work.mayStay = true) :
    work.owner? = none := by
  cases work <;> first | rfl | cases h

namespace Duties

/-- The burst of a method; a fresh one if it was never called. -/
def burst (d : Duties β) (name : String) : Burst :=
  (d.bursts.find? name).getD {}

theorem burst_insert (d : Duties β) (name other : String) (burst : Burst) :
    ({ d with bursts := d.bursts.insert name burst } : Duties β).burst other =
      if other = name then burst else d.burst other := by
  show ((d.bursts.insert name burst).find? other).getD ({} : Burst) = _
  rw [NameTable.find?_insert]
  split <;> rfl

theorem burst_setBurst (x : Instance β) (name other : String) (burst : Burst) :
    (x.setBurst name burst).duties.burst other =
      if other = name then burst else x.duties.burst other :=
  burst_insert x.duties name other burst

/-- Whether an instance has a source of a context on record. -/
def Records (d : Duties β) (c : ContextId) (s : Source β) : Prop :=
  d.context = c ∧
    match s.work with
    | .ready .. => s.id ∈ d.readySources
    | .endOfBurst _ name _ _ => (d.burst name).pending = some s.id
    | _ => True

/-- Nothing is struck off the record. -/
structure Keeps (d d' : Duties β) : Prop where
  context : d'.context = d.context
  ready : ∀ id ∈ d.readySources, id ∈ d'.readySources
  pending : ∀ name, (d'.burst name).pending = (d.burst name).pending

theorem Keeps.refl (d : Duties β) : Keeps d d :=
  ⟨rfl, fun _ h => h, fun _ => rfl⟩

theorem Keeps.records {d d' : Duties β} (h : Keeps d d') {c : ContextId} {s s' : Source β}
    (hid : s'.id = s.id) (hwork : s'.work = s.work) (hr : d.Records c s) : d'.Records c s' := by
  obtain ⟨hcontext, hrecord⟩ := hr
  refine ⟨h.context.trans hcontext, ?_⟩
  rw [hwork, hid]
  cases hw : s.work with
  | ready i typeName hook =>
      rw [hw] at hrecord
      exact h.ready _ hrecord
  | endOfBurst i name trigger callback =>
      rw [hw] at hrecord
      exact (h.pending name).trans hrecord
  | repeating callback => trivial
  | single callback => trivial

end Duties

namespace World

/-- A source that does work for an instance is on its record until it starts. -/
def Tracks (w : World β) (c : ContextId) (s : Source β) : Prop :=
  ∀ i, s.work.owner? = some i →
    i.number < w.nextInstance ∧
      (s.running = false → ∀ d, w.duties? i = some d → d.Records c s)

/-- Every attached source is on record. -/
structure Tracked (w : World β) : Prop where
  created : ∀ i d, w.duties? i = some d → i.number < w.nextInstance
  tracks : ∀ c t, w.timetable? c = some t → ∀ s ∈ t.sources, w.Tracks c s

/-- No source waits to do work for an instance. -/
def Retired (w : World β) (i : InstanceId) : Prop :=
  ∀ c t, w.timetable? c = some t → ∀ s ∈ t.sources, s.work.owner? = some i → s.running = true

/-- Every source that does work for an instance was there before, and started no later. -/
def Inherits (i : InstanceId) (w v : World β) : Prop :=
  ∀ c t', v.timetable? c = some t' → ∀ s' ∈ t'.sources, s'.work.owner? = some i →
    ∃ t, w.timetable? c = some t ∧ ∃ s ∈ t.sources,
      s'.id = s.id ∧ s'.work = s.work ∧ (s'.running = false → s.running = false)

/-- Instances keep their records; new ones have new identities. -/
structure Remembers (w v : World β) : Prop where
  next : w.nextInstance ≤ v.nextInstance
  keeps : ∀ i d', v.duties? i = some d' →
    (∃ d, w.duties? i = some d ∧ d.Keeps d') ∨ w.nextInstance ≤ i.number ∧ i.number < v.nextInstance

section
variable {u v w : World β} {i : InstanceId}

theorem Inherits.trans (h : Inherits i u v) (g : Inherits i v w) : Inherits i u w := by
  intro c t'' ht'' s'' hs'' howner
  obtain ⟨t', ht', s', hs', hid', hwork', hrun'⟩ := g c t'' ht'' s'' hs'' howner
  obtain ⟨t, ht, s, hs, hid, hwork, hrun⟩ := h c t' ht' s' hs' (hwork' ▸ howner)
  exact ⟨t, ht, s, hs, hid'.trans hid, hwork'.trans hwork, fun hfalse => hrun (hrun' hfalse)⟩

theorem inherits_of_eq (h : ∀ c, v.timetable? c = w.timetable? c) : Inherits i w v :=
  fun c t ht s hs _ => ⟨t, (h c).symm.trans ht, s, hs, rfl, rfl, id⟩

theorem remembers_of_eq (hn : v.nextInstance = w.nextInstance)
    (h : ∀ i, v.duties? i = w.duties? i ∨ v.duties? i = none) : Remembers w v := by
  refine ⟨Nat.le_of_eq hn.symm, fun i d' hd' => ?_⟩
  rcases h i with hi | hi
  · exact .inl ⟨d', hi.symm.trans hd', .refl d'⟩
  · rw [hi] at hd'
    cases hd'

theorem Tracks.mono (h : Remembers w v) {c : ContextId} {s s' : Source β} (hs : w.Tracks c s)
    (hid : s'.id = s.id) (hwork : s'.work = s.work)
    (hrun : s'.running = false → s.running = false) : v.Tracks c s' := by
  intro i howner
  obtain ⟨hlt, hrecords⟩ := hs i (hwork ▸ howner)
  refine ⟨Nat.lt_of_lt_of_le hlt h.next, fun hfalse d' hd' => ?_⟩
  rcases h.keeps i d' hd' with ⟨d, hd, hkeeps⟩ | ⟨hge, -⟩
  · exact hkeeps.records hid hwork (hrecords (hrun hfalse) d hd)
  · omega

theorem Tracked.mono (h : w.Tracked) (hs : ∀ i, Inherits i w v) (hd : Remembers w v) : v.Tracked := by
  refine ⟨fun i d' hd' => ?_, fun c t' ht' s' hs' i howner => ?_⟩
  · rcases hd.keeps i d' hd' with ⟨d, hold, -⟩ | ⟨-, hlt⟩
    · exact Nat.lt_of_lt_of_le (h.created i d hold) hd.next
    · exact hlt
  · obtain ⟨t, ht, s, hmem, hid, hwork, hrun⟩ := hs i c t' ht' s' hs' howner
    exact (h.tracks c t ht s hmem).mono hd hid hwork hrun i howner

theorem Tracked.steady (h : w.Tracked) (hw : Steady w v) : v.Tracked :=
  h.mono (fun _ => inherits_of_eq hw.timetable) (remembers_of_eq hw.nextInstance hw.duties)

theorem Retired.inherits (h : w.Retired i) (hs : Inherits i w v) : v.Retired i := by
  intro c t' ht' s' hs' howner
  obtain ⟨t, ht, s, hmem, hid, hwork, hrun⟩ := hs c t' ht' s' hs' howner
  have hold := h c t ht s hmem (hwork ▸ howner)
  cases hrun' : s'.running with
  | true => rfl
  | false => exact (hrun hrun').symm.trans hold

theorem Retired.steady (h : w.Retired i) (hw : Steady w v) : v.Retired i :=
  h.inherits (inherits_of_eq hw.timetable)

end

/-! ## Sources that are removed -/

theorem mem_foldl_detach {ids : List SourceId} {t : Timetable β} {s : Source β} :
    s ∈ (ids.foldl Timetable.detach t).sources ↔ s ∈ t.sources ∧ s.id ∉ ids := by
  induction ids generalizing t with
  | nil => simp
  | cons id rest ih =>
      rw [List.foldl_cons, ih, List.mem_cons, not_or]
      simp only [Timetable.detach, List.mem_filter, decide_not, Bool.not_eq_true',
        decide_eq_false_iff_not]
      exact and_assoc

section
variable {w : World β}

theorem timetable?_detachSources (c d : ContextId) (ids : List SourceId) :
    (w.detachSources c ids).timetable? d =
      if d = c then (w.timetable? d).map (ids.foldl Timetable.detach ·) else w.timetable? d :=
  timetable?_modifyContext w c (fun x => x.timetable_foldl_detach ids) d

/-- What is left after sources were removed was there before, and is none of them. -/
theorem mem_detachSources {c d : ContextId} {ids : List SourceId} {t' : Timetable β}
    (ht' : (w.detachSources c ids).timetable? d = some t') {s : Source β} (hs : s ∈ t'.sources) :
    ∃ t, w.timetable? d = some t ∧ s ∈ t.sources ∧ (d = c → s.id ∉ ids) := by
  rw [timetable?_detachSources] at ht'
  split at ht'
  · obtain ⟨t, ht, rfl⟩ := Option.map_eq_some_iff.mp ht'
    obtain ⟨hmem, hnot⟩ := mem_foldl_detach.mp hs
    exact ⟨t, ht, hmem, fun _ => hnot⟩
  · next hne => exact ⟨t', ht', hs, fun heq => absurd heq hne⟩

theorem inherits_detachSources {i : InstanceId} (c : ContextId) (ids : List SourceId) :
    Inherits i w (w.detachSources c ids) := by
  intro d t' ht' s hs _
  obtain ⟨t, ht, hmem, -⟩ := mem_detachSources ht' hs
  exact ⟨t, ht, s, hmem, rfl, rfl, id⟩

theorem duties?_modifyInstance (i j : InstanceId) (f : Instance β → Instance β) :
    (w.modifyInstance i f).duties? j =
      if j = i then (w.instance? j).map fun x => (f x).duties else w.duties? j := by
  unfold duties?
  rw [instance?_modifyInstance]
  split
  · rw [Option.map_map]
    rfl
  · rfl

theorem duties?_eq {i : InstanceId} {x : Instance β} (hx : w.instance? i = some x) :
    w.duties? i = some x.duties := by
  rw [duties?, hx]
  rfl

/-- A change of one instance that strikes nothing off its record. -/
theorem remembers_modifyInstance (i : InstanceId) {f : Instance β → Instance β}
    (hf : ∀ x, w.instance? i = some x → x.duties.Keeps (f x).duties) :
    Remembers w (w.modifyInstance i f) := by
  refine ⟨Nat.le_refl _, fun j d' hd' => .inl ?_⟩
  rw [duties?_modifyInstance] at hd'
  split at hd'
  · next hj =>
      subst hj
      obtain ⟨x, hx, rfl⟩ := Option.map_eq_some_iff.mp hd'
      exact ⟨x.duties, duties?_eq hx, hf x hx⟩
  · exact ⟨d', hd', .refl d'⟩

/-- A call that is recorded leaves the timers alone. -/
theorem keeps_record (x : Instance β) (name : String) (trigger : Trigger) (args : List Value) :
    x.duties.Keeps (x.setBurst name ((x.burst name).record trigger args)).duties := by
  refine ⟨rfl, fun _ h => h, fun other => ?_⟩
  have hrecord : ((x.burst name).record trigger args).pending = (x.burst name).pending := by
    unfold Burst.record
    split <;> rfl
  rw [Duties.burst_setBurst]
  split
  · next heq =>
      rw [heq]
      exact hrecord
  · rfl

end

/-! ## Disposal -/

section
variable {w : World β} {i : InstanceId} {x : Instance β}

/-- What is on the record of an instance is what its disposal removes. -/
theorem mem_deferredSources {c : ContextId} {s : Source β} (h : x.duties.Records c s)
    (howner : s.work.owner? = some i) : s.id ∈ x.deferredSources := by
  obtain ⟨-, hrecord⟩ := h
  cases hw : s.work with
  | ready j typeName hook =>
      rw [hw] at hrecord
      exact List.mem_append_left _ hrecord
  | endOfBurst j name trigger callback =>
      rw [hw] at hrecord
      have hpending : ((x.bursts.find? name).getD {}).pending = some s.id := hrecord
      cases hfind : x.bursts.find? name with
      | none =>
          rw [hfind] at hpending
          cases hpending
      | some burst =>
          rw [hfind] at hpending
          exact List.mem_append_right _ (List.mem_filterMap.mpr
            ⟨burst, List.mem_map_of_mem (NameTable.mem_of_find? hfind), hpending⟩)
  | repeating callback =>
      rw [hw] at howner
      cases howner
  | single callback =>
      rw [hw] at howner
      cases howner

theorem duties?_dispose (hx : w.instance? i = some x) (hd : x.disposed = false) (j : InstanceId) :
    (w.dispose i).duties? j = if j = i then some x.dispose.duties else w.duties? j := by
  rw [dispose_eq hx hd, duties?_modifyInstance,
    show (w.detachSources x.context x.deferredSources).instance? j = w.instance? j from rfl]
  split
  · next hj =>
      rw [hj, hx]
      rfl
  · rfl

theorem inherits_dispose (w : World β) (i j : InstanceId) : Inherits j w (w.dispose i) := by
  refine dispose_induction w i (inherits_of_eq fun _ => rfl) fun x _ _ => ?_
  exact inherits_detachSources _ _

/-- Disposal removes every source that waits to do work for the instance. -/
theorem Tracked.retired_dispose (h : w.Tracked) (hx : w.instance? i = some x)
    (hd : x.disposed = false) : (w.dispose i).Retired i := by
  intro c t' ht' s hs howner
  rw [dispose_eq hx hd] at ht'
  obtain ⟨t, ht, hmem, hnot⟩ := mem_detachSources ht' hs
  obtain ⟨-, hrecords⟩ := h.tracks c t ht s hmem i howner
  cases hrun : s.running with
  | true => rfl
  | false =>
      have hrecord := hrecords hrun x.duties (duties?_eq hx)
      exact absurd (mem_deferredSources hrecord howner) (hnot hrecord.1.symm)

theorem Tracked.dispose (h : w.Tracked) (i : InstanceId) : (w.dispose i).Tracked := by
  refine dispose_induction w i h fun x hx hd => ?_
  rw [← dispose_eq hx hd]
  have hnext : (w.dispose i).nextInstance = w.nextInstance := by
    rw [dispose_eq hx hd]
    rfl
  refine ⟨fun j d hd' => ?_, fun c t' ht' s hs j howner => ?_⟩
  · rw [hnext]
    rw [duties?_dispose hx hd] at hd'
    split at hd'
    · next hj =>
        rw [hj]
        exact h.created i _ (duties?_eq hx)
    · exact h.created j d hd'
  · obtain ⟨t, ht, r, hmem, hid, hwork, hrun⟩ := inherits_dispose w i j c t' ht' s hs howner
    obtain ⟨hlt, hrecords⟩ := h.tracks c t ht r hmem j (hwork ▸ howner)
    refine ⟨hnext ▸ hlt, fun hfalse d hd' => ?_⟩
    by_cases hj : j = i
    · subst hj
      have := h.retired_dispose hx hd c t' ht' s hs howner
      rw [hfalse] at this
      cases this
    · rw [duties?_dispose hx hd, if_neg hj] at hd'
      exact (Duties.Keeps.refl d).records hid hwork (hrecords (hrun hfalse) d hd')

end

/-! ## Deferred work that is attached -/

section
variable {w : World β} {i : InstanceId} {x : Instance β} {y : MainContext β}

/-- What is attached after a source was attached was there before, or is that source. -/
theorem mem_attachNow {c d : ContextId} (hy : w.context? c = some y) {kind : SourceKind}
    {priority : Priority} {work : SourceWork β} {t' : Timetable β}
    (ht' : (w.setContext c (y.attachNow kind priority work).1).timetable? d = some t')
    {s : Source β} (hs : s ∈ t'.sources) :
    (∃ t, w.timetable? d = some t ∧ s ∈ t.sources) ∨
      d = c ∧ s = y.timetable.fresh kind priority work := by
  rw [timetable?_setContext w hy] at ht'
  split at ht'
  · next hd =>
      obtain rfl := Option.some.inj ht'
      rw [MainContext.timetable_attachNow, Timetable.attach, List.mem_append,
        List.mem_singleton] at hs
      rcases hs with hs | hs
      · exact .inl ⟨y.timetable, hd ▸ timetable?_eq hy, hs⟩
      · exact .inr ⟨hd, hs⟩
  · exact .inl ⟨t', ht', hs⟩

/-- A source of one owner, or of none, is nothing to another instance. -/
theorem inherits_attachNow {c : ContextId} (hy : w.context? c = some y) (kind : SourceKind)
    (priority : Priority) {work : SourceWork β} (howner : work.owner? ≠ some i) :
    Inherits i w (w.setContext c (y.attachNow kind priority work).1) := by
  intro d t' ht' s hs hi
  rcases mem_attachNow hy ht' hs with ⟨t, ht, hmem⟩ | ⟨-, rfl⟩
  · exact ⟨t, ht, s, hmem, rfl, rfl, id⟩
  · exact absurd hi howner

/-- An instance that attaches a source and takes note of it has it on record. -/
theorem Tracked.attachNow (h : w.Tracked) (hx : w.instance? i = some x)
    (hy : w.context? x.context = some y) (kind : SourceKind) (priority : Priority)
    {work : SourceWork β} (howner : work.owner? = some i) {f : Instance β → Instance β}
    (hold : ∀ s ∈ y.timetable.sources, s.work.owner? = some i → s.running = false →
      x.duties.Records x.context s → (f x).duties.Records x.context s)
    (hnew : (f x).duties.Records x.context (y.timetable.fresh kind priority work)) :
    ((w.setContext x.context (y.attachNow kind priority work).1).modifyInstance i f).Tracked := by
  have hi : i.number < w.nextInstance := h.created i _ (duties?_eq hx)
  refine ⟨fun j d hd => ?_, fun c t' ht' s hs j hj => ?_⟩
  · rw [duties?_modifyInstance] at hd
    split at hd
    · next heq => exact heq ▸ hi
    · exact h.created j d hd
  · rcases mem_attachNow hy ht' hs with ⟨t, ht, hmem⟩ | ⟨rfl, rfl⟩
    · obtain ⟨hlt, hrecords⟩ := h.tracks c t ht s hmem j hj
      refine ⟨hlt, fun hrun d hd => ?_⟩
      rw [duties?_modifyInstance] at hd
      split at hd
      · next heq =>
          subst heq
          rw [show (w.setContext x.context _).instance? j = some x from hx] at hd
          obtain rfl := Option.some.inj hd
          have hrecord := hrecords hrun _ (duties?_eq hx)
          have hc : x.context = c := hrecord.1
          subst hc
          obtain rfl := Option.some.inj (ht.symm.trans (timetable?_eq hy))
          exact hold s hmem hj hrun hrecord
      · exact hrecords hrun d hd
    · obtain rfl := Option.some.inj (howner.symm.trans hj)
      refine ⟨hi, fun _ d hd => ?_⟩
      rw [duties?_modifyInstance, if_pos rfl,
        show (w.setContext x.context _).instance? i = some x from hx] at hd
      obtain rfl := Option.some.inj hd
      exact hnew

theorem Tracked.scheduleReady (h : w.Tracked) (i : InstanceId) (typeName : String)
    (hook : ReadyHook β) : (w.scheduleReady i typeName hook).Tracked := by
  refine scheduleReady_induction w i typeName hook h fun x y hx hy => ?_
  refine h.attachNow hx hy .idle .standard rfl (fun s _ _ _ hrecord => ?_) ?_
  · have hkeeps : x.duties.Keeps (x.trackReady ⟨y.nextSource⟩).duties :=
      ⟨rfl, fun id hid => List.mem_append_left _ hid, fun _ => rfl⟩
    exact hkeeps.records rfl rfl hrecord
  · exact ⟨rfl, List.mem_append_right _ (List.mem_singleton.mpr rfl)⟩

theorem Tracked.scheduleHooks (h : w.Tracked) (i : InstanceId) (x : Instance β) :
    (w.scheduleHooks i x).Tracked :=
  scheduleHooks_induction w i x h fun _ typeName hook hv => hv.scheduleReady i typeName hook

theorem scheduleHooks_of_absent (h : ∀ x, w.instance? i = some x → w.context? x.context = none)
    (x : Instance β) : w.scheduleHooks i x = w :=
  scheduleHooks_induction (P := (· = w)) w i x rfl fun v typeName hook hv => by
    rw [hv, scheduleReady_of_absent h]

theorem scheduleHooks_of_none (h : ∀ level ∈ x.ofClass.rootFirst, level.ready = none) :
    w.scheduleHooks i x = w := by
  unfold World.scheduleHooks
  revert h
  generalize x.ofClass.rootFirst = levels
  intro h
  induction levels with
  | nil => rfl
  | cons level rest ih =>
      rw [List.foldl_cons, h level List.mem_cons_self]
      exact ih fun other hother => h other (List.mem_cons_of_mem _ hother)

theorem inherits_scheduleHooks {j : InstanceId} (hne : j ≠ i) (w : World β) (x : Instance β) :
    Inherits j w (w.scheduleHooks i x) := by
  refine scheduleHooks_induction w i x (inherits_of_eq fun _ => rfl)
    fun v typeName hook hv => hv.trans ?_
  refine scheduleReady_induction v i typeName hook (inherits_of_eq fun _ => rfl)
    fun z y _ hy => ?_
  refine inherits_attachNow hy .idle .standard fun howner => ?_
  exact hne (Option.some.inj howner).symm

/-- Detaching the timer of a method leaves no other: only the one on record could wait. -/
theorem Tracked.restartBurst (h : w.Tracked) (i : InstanceId) (name : String) (debounce : Debounce)
    (callback : β) : (w.restartBurst i name debounce callback).Tracked := by
  refine restartBurst_induction w i name debounce callback h fun x y hx hy => ?_
  have hdetached : (w.detachSources x.context (x.burst name).pending.toList).Tracked :=
    h.mono (fun _ => inherits_detachSources _ _) (remembers_of_eq rfl fun _ => .inl rfl)
  refine hdetached.attachNow hx hy (.timeout debounce.interval) .standard rfl
    (fun s hs howner hrun hrecord => ?_) ?_
  · obtain ⟨t, ht, hmem, hnot⟩ := mem_detachSources (timetable?_eq hy) hs
    refine ⟨rfl, ?_⟩
    have hkept := hrecord.2
    cases hw : s.work with
    | ready j typeName hook =>
        rw [hw] at hkept
        exact hkept
    | endOfBurst j other trigger f =>
        rw [hw] at hkept
        have hpending : (x.burst other).pending = some s.id := hkept
        have hother : other ≠ name := by
          rintro rfl
          refine hnot rfl ?_
          rw [hpending]
          exact List.mem_singleton.mpr rfl
        show ((x.setBurst name _).duties.burst other).pending = some s.id
        rw [Duties.burst_setBurst, if_neg hother]
        exact hpending
    | repeating f => trivial
    | single f => trivial
  · refine ⟨rfl, ?_⟩
    show ((x.setBurst name _).duties.burst name).pending = some _
    rw [Duties.burst_setBurst, if_pos rfl]
    rfl

/-- A timer is nothing to another instance, and there is none without a context. -/
theorem inherits_restartBurst {j : InstanceId}
    (h : j ≠ i ∨ ∀ x, w.instance? i = some x → w.context? x.context = none) (name : String)
    (debounce : Debounce) (callback : β) :
    Inherits j w (w.restartBurst i name debounce callback) := by
  refine restartBurst_induction w i name debounce callback (inherits_of_eq fun _ => rfl)
    fun x y hx hy => ?_
  have hdetach : Inherits j w (w.detachSources x.context (x.burst name).pending.toList) :=
    inherits_detachSources _ _
  refine hdetach.trans (inherits_attachNow hy (.timeout debounce.interval) .standard ?_)
  intro howner
  rcases h with hne | habsent
  · exact hne (Option.some.inj howner).symm
  · rw [detachSources_of_absent (habsent x hx), habsent x hx] at hy
    cases hy

end

/-! ## Deferred work that starts -/

section
variable {w : World β} {c : ContextId} {id : SourceId} {x y : MainContext β} {work : SourceWork β}

/-- A change of one instance that strikes only sources off its record that do not wait. -/
theorem Tracked.modifyInstance (h : w.Tracked) {i : InstanceId} {f : Instance β → Instance β}
    (hf : ∀ z, w.instance? i = some z → ∀ d t, w.timetable? d = some t → ∀ s ∈ t.sources,
      s.running = false → s.work.owner? = some i → z.duties.Records d s →
        (f z).duties.Records d s) :
    (w.modifyInstance i f).Tracked := by
  refine ⟨fun j d hd => ?_, fun d t ht s hs j howner => ?_⟩
  · rw [duties?_modifyInstance] at hd
    split at hd
    · obtain ⟨z, hz, -⟩ := Option.map_eq_some_iff.mp hd
      exact h.created j _ (duties?_eq hz)
    · exact h.created j d hd
  · obtain ⟨hlt, hrecords⟩ := h.tracks d t ht s hs j howner
    refine ⟨hlt, fun hrun e he => ?_⟩
    rw [duties?_modifyInstance] at he
    split at he
    · next heq =>
        subst heq
        obtain ⟨z, hz, rfl⟩ := Option.map_eq_some_iff.mp he
        exact hf z hz d t ht s hs hrun howner (hrecords hrun _ (duties?_eq hz))
    · exact hrecords hrun e he

/-- A source that starts leaves the others as they are. -/
theorem mem_beginRun (hx : w.context? c = some x) (hb : x.beginRun id = some (y, work))
    {d : ContextId} {t' : Timetable β} (ht' : (w.setContext c y).timetable? d = some t')
    {s' : Source β} (hs' : s' ∈ t'.sources) :
    ∃ t, w.timetable? d = some t ∧ ∃ s ∈ t.sources, s'.id = s.id ∧ s'.work = s.work ∧
      (s'.running = false → s = s' ∧ ¬ (d = c ∧ s.id = id)) := by
  obtain ⟨-, -, -, -, hy⟩ := MainContext.of_beginRun hb
  rw [timetable?_setContext w hx] at ht'
  split at ht'
  · next hd =>
      rw [hy] at ht'
      obtain rfl := Option.some.inj ht'
      obtain ⟨s, hs, rfl⟩ := Timetable.mem_modify.mp hs'
      refine ⟨x.timetable, hd ▸ timetable?_eq hx, s, hs, ?_⟩
      split
      · exact ⟨rfl, rfl, fun hrun => (by cases hrun)⟩
      · next hne => exact ⟨rfl, rfl, fun _ => ⟨rfl, fun heq => hne heq.2⟩⟩
  · next hne => exact ⟨t', ht', s', hs', rfl, rfl, fun _ => ⟨rfl, fun heq => hne heq.1⟩⟩

theorem inherits_startWork (hx : w.context? c = some x) (hb : x.beginRun id = some (y, work))
    (i : InstanceId) : Inherits i w ((w.setContext c y).startWork c id work []).world := by
  intro d t' ht' s' hs' _
  rw [Turn.timetable?_startWork] at ht'
  obtain ⟨t, ht, s, hs, hid, hwork, hrun⟩ := mem_beginRun hx hb ht' hs'
  exact ⟨t, ht, s, hs, hid, hwork, fun hfalse => (hrun hfalse).1 ▸ hfalse⟩

/-- A source that starts is struck off the record of its owner, and no other is. -/
theorem Tracked.startWork (h : w.Tracked) (hx : w.context? c = some x)
    (hb : x.beginRun id = some (y, work)) :
    ((w.setContext c y).startWork c id work []).world.Tracked := by
  have hstarted : (w.setContext c y).Tracked := by
    refine h.mono (fun i d t' ht' s' hs' _ => ?_) (remembers_of_eq rfl fun _ => .inl rfl)
    obtain ⟨t, ht, s, hs, hid, hwork, hrun⟩ := mem_beginRun hx hb ht' hs'
    exact ⟨t, ht, s, hs, hid, hwork, fun hfalse => (hrun hfalse).1 ▸ hfalse⟩
  obtain ⟨r, hr, hidle, rfl, -⟩ := MainContext.of_beginRun hb
  obtain ⟨hrmem, hrid⟩ := Timetable.mem_of_source? hr
  -- the source that starts was on the record of its owner
  have hrecord {i : InstanceId} (howner : r.work.owner? = some i) {z : Instance β}
      (hz : w.instance? i = some z) : z.duties.Records c r :=
    (h.tracks c _ (timetable?_eq hx) r hrmem i howner).2 hidle _ (duties?_eq hz)
  have hother {d : ContextId} {t : Timetable β} (ht : (w.setContext c y).timetable? d = some t)
      {s : Source β} (hs : s ∈ t.sources) (hrun : s.running = false) : ¬ (d = c ∧ s.id = id) := by
    obtain ⟨t₀, -, s₀, -, -, -, hkept⟩ := mem_beginRun hx hb ht hs
    obtain ⟨rfl, hnot⟩ := hkept hrun
    exact hnot
  refine startWork_induction _ c id r.work [] hstarted ?_ ?_
  · intro i typeName hook hw
    refine hstarted.modifyInstance fun z hz d t ht s hs hrun howner hs' => ?_
    have hz' : z.context = c := (hrecord (by rw [hw]; rfl) hz).1
    refine ⟨hs'.1, ?_⟩
    have hkept := hs'.2
    cases hws : s.work with
    | ready j other hook' =>
        rw [hws] at hkept
        refine List.mem_filter.mpr ⟨hkept, ?_⟩
        have hd : d = c := hs'.1.symm.trans hz'
        simpa using fun hid => hother ht hs hrun ⟨hd, hid⟩
    | endOfBurst j other trigger f =>
        rw [hws] at hkept
        exact hkept
    | repeating f => trivial
    | single f => trivial
  · intro i name trigger callback burst hw
    refine hstarted.modifyInstance fun z hz d t ht s hs hrun howner hs' => ?_
    obtain ⟨hz', hpending⟩ := hrecord (by rw [hw]; rfl) hz
    refine ⟨hs'.1, ?_⟩
    have hkept := hs'.2
    cases hws : s.work with
    | ready j other hook =>
        rw [hws] at hkept
        exact hkept
    | endOfBurst j other trigger' f =>
        rw [hws] at hkept
        rw [hw] at hpending
        show ((z.setBurst name (burst.finish trigger).1).duties.burst other).pending = some s.id
        rw [Duties.burst_setBurst]
        split
        · next heq =>
            subst heq
            have hid : s.id = id := hrid ▸ Option.some.inj (hkept.symm.trans hpending)
            exact absurd ⟨hs'.1.symm.trans hz', hid⟩ (hother ht hs hrun)
        · exact hkept
    | repeating f => trivial
    | single f => trivial

end

/-! ## Changes that attach no deferred work -/

section
variable {w : World β} {i : InstanceId} {c : ContextId}

theorem inherits_setContext {x y : MainContext β} (hx : w.context? c = some x)
    (hy : ∀ s' ∈ y.sources, s'.work.owner? = some i → ∃ s ∈ x.sources,
      s'.id = s.id ∧ s'.work = s.work ∧ (s'.running = false → s.running = false)) :
    Inherits i w (w.setContext c y) := by
  intro d t' ht' s' hs' howner
  rw [timetable?_setContext w hx] at ht'
  split at ht'
  · next hd =>
      obtain rfl := Option.some.inj ht'
      obtain ⟨s, hs, hrest⟩ := hy s' hs' howner
      exact ⟨x.timetable, hd ▸ timetable?_eq hx, s, hs, hrest⟩
  · exact ⟨t', ht', s', hs', rfl, rfl, id⟩

theorem inherits_modifyContext {f : MainContext β → MainContext β}
    (hf : ∀ x, w.context? c = some x → ∀ s' ∈ (f x).sources, s'.work.owner? = some i →
      ∃ s ∈ x.sources, s'.id = s.id ∧ s'.work = s.work ∧
        (s'.running = false → s.running = false)) :
    Inherits i w (w.modifyContext c f) := by
  intro d t' ht' s' hs' howner
  unfold timetable? at ht'
  rw [context?_modifyContext] at ht'
  split at ht'
  · next hd =>
      subst hd
      rw [Option.map_map] at ht'
      obtain ⟨x, hx, rfl⟩ := Option.map_eq_some_iff.mp ht'
      obtain ⟨s, hs, hrest⟩ := hf x hx s' hs' howner
      exact ⟨x.timetable, timetable?_eq hx, s, hs, hrest⟩
  · exact ⟨t', ht', s', hs', rfl, rfl, id⟩

theorem inherits_setTime (c : ContextId) (now : Nat) : Inherits i w (w.setTime c now) :=
  inherits_modifyContext fun _ _ s hs _ => ⟨s, hs, rfl, rfl, id⟩

theorem inherits_addContext (config : Config) : Inherits i w (w.addContext config).1 := by
  intro d t' ht' s hs howner
  rw [timetable?_addContext] at ht'
  rcases Option.or_eq_some_iff.mp ht' with hold | ⟨-, hnew⟩
  · exact ⟨t', hold, s, hs, rfl, rfl, id⟩
  · split at hnew
    · obtain rfl := Option.some.inj hnew
      cases hs
    · cases hnew

theorem inherits_collectReady {x : MainContext β} (hx : w.context? c = some x) :
    Inherits i w (w.setContext c x.collectReady.1) :=
  inherits_setContext hx fun s hs _ => ⟨s, hs, rfl, rfl, id⟩

theorem inherits_detach {x : MainContext β} (hx : w.context? c = some x) (id : SourceId) :
    Inherits i w (w.setContext c (x.detach id)) :=
  inherits_setContext hx fun s hs _ => ⟨s, List.mem_of_mem_filter hs, rfl, rfl, fun h => h⟩

/-- The work of a source that has run and stays belongs to no instance. -/
theorem inherits_endRun {id : SourceId} {stays : Bool}
    (hstay : stays = true → ∀ x, w.context? c = some x → ∀ s ∈ x.sources, s.id = id →
      s.work.mayStay = true) : Inherits i w (w.modifyContext c (·.endRun id stays)) := by
  refine inherits_modifyContext fun x hx s' hs' howner => ?_
  cases stays with
  | false => exact ⟨s', List.mem_of_mem_filter hs', rfl, rfl, fun h => h⟩
  | true =>
      obtain ⟨s, hs, rfl⟩ := List.mem_map.mp hs'
      by_cases hid : s.id = id
      · rw [if_pos hid] at howner
        have hwork : (MainContext.rearm x.now s).work = s.work := by
          unfold MainContext.rearm
          split <;> rfl
        rw [hwork, SourceWork.owner?_of_mayStay (hstay rfl x hx s hs hid)] at howner
        cases howner
      · rw [if_neg hid]
        exact ⟨s, hs, rfl, rfl, fun h => h⟩

theorem remembers_addInstance (ofClass : Class β) (c : ContextId) :
    Remembers w (w.addInstance ofClass c).1 := by
  refine ⟨Nat.le_succ _, fun j d' hd' => ?_⟩
  rw [duties?_addInstance] at hd'
  rcases Option.or_eq_some_iff.mp hd' with hold | ⟨-, hnew⟩
  · exact .inl ⟨d', hold, .refl _⟩
  · split at hnew
    · next hj =>
        subst hj
        exact .inr ⟨Nat.le_refl _, Nat.lt_succ_self _⟩
    · cases hnew

end

end World

/-! ## Every reachable state -/

section
variable {m m' : Machine σ β κ}

/-- The source whose run ends leaves no work of an instance behind. -/
theorem Machine.inherits_sourceEnd {c : ContextId} {id : SourceId} {mayStay stays : Bool}
    {rest : List (Frame β)} (hsound : (m.desk c).Sound)
    (hs : Machine.marks m.stack = .sourceEnd c id mayStay :: rest)
    (hstay : stays = true → mayStay = true) (i : InstanceId) :
    World.Inherits i m.world (m.world.modifyContext c (·.endRun id stays)) := by
  refine World.inherits_endRun fun hstays x hx s hmem hid => ?_
  have hruns := Machine.running_of_sourceEnd hs
  rw [hstay hstays, ← hid] at hruns
  exact (hsound.present _ (World.timetable?_eq hx)).stays s hmem hruns

/-- Every turn keeps the sources on record. -/
theorem Turn.tracked (h : Turn m m') (hsound : ∀ c, (m.desk c).Sound) (hw : m.world.Tracked) :
    m'.world.Tracked := by
  have edit {w : World β} (hs : ∀ i, World.Inherits i m.world w)
      (hn : w.nextInstance = m.world.nextInstance)
      (hd : ∀ i, w.duties? i = m.world.duties? i) : w.Tracked :=
    hw.mono hs (World.remembers_of_eq hn fun i => .inl (hd i))
  cases h with
  | still hsteady hs hc => exact hw.steady hsteady
  | opens config hsteady hs hc =>
      exact (edit (fun _ => World.inherits_addContext config) rfl fun _ => rfl).steady hsteady
  | ticks c now hm hsteady hs hc =>
      exact (edit (fun _ => World.inherits_setTime c now) rfl fun _ => rfl).steady hsteady
  | attaches c x kind priority work hx hp hsteady hs hc =>
      refine (edit (fun i => World.inherits_attachNow hx kind priority ?_) rfl
        fun _ => rfl).steady hsteady
      rw [SourceWork.owner?_of_isPlain hp]
      exact (Option.some_ne_none i).symm
  | detaches c x id hm hx hsteady hs hc =>
      exact (edit (fun _ => World.inherits_detach hx id) rfl fun _ => rfl).steady hsteady
  | creates ofClass c hsteady hs hc =>
      refine World.Tracked.steady ?_ hsteady
      exact hw.mono (fun _ => World.inherits_of_eq fun _ => rfl)
        (World.remembers_addInstance ofClass c)
  | disposes i hm hsteady hs hc => exact (hw.dispose i).steady hsteady
  | calls i name args x callback hm hx hd hf hsteady hs hc => exact hw.steady hsteady
  | callsAtOnce i name args x callback debounce hm hx hd hf hr hsteady hs hc =>
      refine World.Tracked.steady ?_ hsteady
      refine hw.mono (fun _ => World.inherits_of_eq fun _ => rfl) ?_
      refine World.remembers_modifyInstance i fun z hz => ?_
      obtain rfl := Option.some.inj (hx.symm.trans hz)
      exact World.keeps_record x name debounce.trigger args
  | callsLater i name args x callback debounce hm hx hd hf hr hsteady hs hc =>
      refine (World.Tracked.restartBurst ?_ i name debounce callback).steady hsteady
      refine hw.mono (fun _ => World.inherits_of_eq fun _ => rfl) ?_
      refine World.remembers_modifyInstance i fun z hz => ?_
      obtain rfl := Option.some.inj (hx.symm.trans hz)
      exact World.keeps_record x name debounce.trigger args
  | startsInterval i name debounce callback hsteady hs hc =>
      exact (hw.restartBurst i name debounce callback).steady hsteady
  | constructs f rest i hf hsteady hs hs' hc => exact hw.steady hsteady
  | schedules i x hx hsteady hs hc => exact (hw.scheduleHooks i x).steady hsteady
  | collects c x worked hx hsteady hs hc =>
      exact (edit (fun _ => World.inherits_collectReady hx) rfl fun _ => rfl).steady hsteady
  | skips c id ready worked rest hx hsteady hs hs' hc => exact hw.steady hsteady
  | begins c id ready worked rest x y work hx hb hsteady hs hs' hc =>
      exact (hw.startWork hx hb).steady hsteady
  | ends c id mayStay stays hstay hsteady hs hc =>
      exact (edit (Machine.inherits_sourceEnd (hsound c) hs hstay) rfl fun _ => rfl).steady hsteady
  | closes c worked hsteady hs hc => exact hw.steady hsteady

/-- In every reachable state, every source is on record. -/
theorem Machine.Reachable.tracked {client : Client σ β κ} (h : Reachable client m) :
    m.world.Tracked := by
  induction h with
  | initial state callback => exact ⟨fun _ _ hd => (by cases hd), fun _ _ ht => (by cases ht)⟩
  | @step m hm ih => exact (turn_step client m).tracked (fun c => hm.desk c) ih

end

end ObjectSystem
